import LoxLang.Proofs.Machine.Chains
import LoxLang.Proofs.Machine.Depth
import LoxLang.Proofs.Syntax.Proper

/-!
Which names running things adds to which frames.

Frames are only added, and the old ones keep their bindings and what encloses them (`Store.Grows`).  A
name is added to an old frame by a declaration alone: to the frame that is active where the declaration
stands, since calls and blocks go on in frames of their own.  So an activity adds at most what it
declares (`Activity.Adds`), at its end and at every moment before (`Activity.Reaches.grows`), and a
plain statement of a proper tree declares nothing (`Stmt.Declares.not_plain`).
-/

namespace LoxLang

/-! ## Frames -/

/-- `t` has the frames of `s`, enclosed as they were and with the names that they had; it may have further
frames, and in frames of `s` further names as far as `new` says. -/
structure Store.Grows (s t : Store) (new : FrameId → String → Prop) : Prop where
  size : s.frames.size ≤ t.frames.size
  links : ∀ f, f < s.frames.size → t.enclosing? f = s.enclosing? f
  kept : ∀ f name, s.binds f name = true → t.binds f name = true
  added : ∀ f name, f < s.frames.size → t.binds f name = true → s.binds f name = true ∨ new f name

namespace Store

variable {s t u : Store} {new new' : FrameId → String → Prop}

theorem Grows.refl (s : Store) : s.Grows s new :=
  ⟨Nat.le_refl _, fun _ _ => rfl, fun _ _ h => h, fun _ _ _ h => .inl h⟩

/-- What is added later to frames that were there before counts as added. -/
theorem Grows.trans (h : s.Grows t new) (h' : t.Grows u new')
    (hnew : ∀ f name, f < s.frames.size → new' f name → new f name) : s.Grows u new := by
  constructor
  case size => exact Nat.le_trans h.size h'.size
  case links =>
    intro f hf
    rw [h'.links f (Nat.lt_of_lt_of_le hf h.size), h.links f hf]
  case kept => exact fun f name hb => h'.kept f name (h.kept f name hb)
  case added =>
    intro f name hf hb
    rcases h'.added f name (Nat.lt_of_lt_of_le hf h.size) hb with hbefore | hadded
    · exact h.added f name hf hbefore
    · exact .inr (hnew f name hf hadded)

theorem Grows.mono (h : s.Grows t new) (hnew : ∀ f name, f < s.frames.size → new f name → new' f name) :
    s.Grows t new' := by
  refine ⟨h.size, h.links, h.kept, fun f name hf hb => ?_⟩
  exact (h.added f name hf hb).imp_right (hnew f name hf)

/-- Binding a name adds it at most, and to the one frame. -/
theorem grows_define (s : Store) (f : FrameId) (name : String) (value : Value)
    (hnew : s.binds f name = true ∨ new f name) : s.Grows (s.define f name value) new := by
  constructor
  case size => exact Nat.le_of_eq (size_define s f name value).symm
  case links => exact fun g _ => enclosing?_define s f g name value
  case kept => exact fun g other hb => (binds_define s f g name other value).2 (.inl hb)
  case added =>
    intro g other _ hb
    rcases (binds_define s f g name other value).1 hb with hbefore | ⟨rfl, rfl, -⟩
    · exact .inl hbefore
    · exact hnew

/-- A new frame is no old one. -/
theorem grows_push (s : Store) (f : FrameId) (bindings : List (String × Value)) :
    s.Grows (s.push f bindings) new := by
  constructor
  case size => simp
  case links => exact fun g hg => (enclosing?_push s f g bindings).trans (if_neg (Nat.ne_of_lt hg))
  case kept =>
    intro g name hb
    rw [binds_push_of_lt (lt_size_of_binds hb)]
    exact hb
  case added =>
    intro g name hg hb
    rw [binds_push_of_lt hg] at hb
    exact .inl hb

end Store

/-! ## Declarations -/

/-- The statement declares a name for the statements behind it. -/
inductive Stmt.Declares : Stmt → String → Prop
  | var (name initializer) : Declares (.var name initializer) name.lexeme
  | function (name params body) : Declares (.function name params body) name.lexeme
  | thenBranch {condition s elseBranch x} : Declares s x →
      Declares (.ifElse condition s elseBranch) x
  | elseBranch {condition s thenBranch x} : Declares s x →
      Declares (.ifElse condition thenBranch (some s)) x
  | body {condition s x} : Declares s x → Declares (.while condition s) x

/-- In a proper tree no part of a plain statement declares anything. -/
theorem Stmt.Declares.not_plain {s : Stmt} {x : String} (h : s.Declares x) (hp : s.Proper) :
    ¬ s.Plain := by
  induction h with
  | var name initializer => exact id
  | function name params body => exact id
  | thenBranch _ ih => exact absurd hp.2.1.2 (ih hp.2.1.1)
  | elseBranch _ ih => exact absurd hp.2.2.2 (ih hp.2.2.1)
  | body _ ih => exact absurd hp.2.2 (ih hp.2.1)

/-- The name of a declaration. -/
def Stmt.declared? : Stmt → Option String
  | .var name _ => some name.lexeme
  | .function name _ _ => some name.lexeme
  | _ => none

theorem Stmt.Declares.declared?_eq {s : Stmt} {x : String} (h : s.Declares x) (hp : s.Proper) :
    s.declared? = some x := by
  cases h with
  | var name initializer => rfl
  | function name params body => rfl
  | thenBranch h => exact absurd trivial ((Declares.thenBranch h).not_plain hp)
  | elseBranch h => exact absurd trivial ((Declares.elseBranch h).not_plain hp)
  | body h => exact absurd trivial ((Declares.body h).not_plain hp)

/-! ## Single steps -/

namespace Run

variable {context : Context} {m s : Machine}

theorem binds_of_owner? {id : NodeId} {name : String} {f : FrameId}
    (h : owner? context m id name = some f) : m.store.binds f name = true := by
  unfold owner? at h
  split at h
  · exact (Option.filter_eq_some_iff.1 h).2
  · obtain ⟨k, hk⟩ := Store.exists_nearest_of_ownerWithin? h
    exact hk.bound

/-- An assignment changes a binding that there is. -/
theorem assignVariable_cases {id : NodeId} {name : Token} {v w : Value}
    (h : ((assignVariable context id name v >>= fun _ => pure w) m).state? = some s) :
    s = m ∨ ∃ f, m.store.binds f name.lexeme = true ∧
      s = { m with store := m.store.define f name.lexeme v } := by
  rw [Action.bind_apply, assignVariable] at h
  cases ho : owner? context m id name.lexeme with
  | none =>
    rw [ho] at h
    cases h
    exact .inl rfl
  | some f =>
    rw [ho] at h
    cases h
    exact .inr ⟨f, binds_of_owner? ho, rfl⟩

end Run

/-! ## Activities -/

/-- The names that an activity may add to frames that there are. -/
def Activity.Adds : Activity → Machine → FrameId → String → Prop
  | execute s, m, f, name => f = m.active ∧ s.Declares name
  | executeAll ss, m, f, name => f = m.active ∧ ∃ s ∈ ss, s.Declares name
  | loop _ body, m, f, name => f = m.active ∧ body.Declares name
  | _, _, _, _ => False

variable {context : Context} {m m' s : Machine} {α : Type}

namespace Course

/-- The course leads from `m` to machines with grown frames, in the same frame; and what its parts may
add to frames of `m` it may add. -/
def Grows (m : Machine) (new : FrameId → String → Prop) : Course α → Prop
  | ends o => ∀ s, o.state? = some s → m.store.Grows s.store new
  | part a m' leave next =>
    m.store.Grows m'.store new ∧
    (∀ f name, f < m.store.frames.size → a.Adds m' f name → new f name) ∧
    (∀ s, s.active = m'.active → (leave s).active = m.active ∧ (leave s).store = s.store) ∧
    ∀ v s, s.active = m.active → m.store.Grows s.store new → (next v s).Grows m new

variable {new : FrameId → String → Prop}

theorem Grows.first {a : Activity} {next : a.Result → Machine → Course α} (hs : s.active = m.active)
    (hg : m.store.Grows s.store new)
    (ha : ∀ f name, f < m.store.frames.size → a.Adds s f name → new f name)
    (hnext : ∀ v s, s.active = m.active → m.store.Grows s.store new → (next v s).Grows m new) :
    (Course.first a s next).Grows m new :=
  ⟨hg, ha, fun _ h => ⟨h.trans hs, rfl⟩, hnext⟩

theorem Grows.ok {v : α} (hg : m.store.Grows s.store new) : (ends (.ok v s)).Grows m new := by
  intro t ht
  cases ht
  exact hg

/-- A part with nothing after it. -/
theorem Grows.only {a : Activity} (hs : s.active = m.active) (hg : m.store.Grows s.store new)
    (ha : ∀ f name, f < m.store.frames.size → a.Adds s f name → new f name) :
    (Course.first a s fun v s => ends (.ok v s)).Grows m new :=
  .first hs hg ha fun _ _ _ hg => .ok hg

/-- An end that leaves the frames as they are. -/
theorem Grows.still {x : Run α} (hg : m.store.Grows s.store new) (hx : Run.Still x) :
    (ends (x s)).Grows m new := by
  intro t ht
  rw [(hx s t ht).1]
  exact hg

end Course

namespace Activity

open Course

theorem grows_evaluate (e : Expr) (m : Machine) :
    ((evaluate e).course context m).Grows m fun _ _ => False := by
  have hm : m.store.Grows m.store fun _ _ => False := .refl _
  cases e with
  | constant value => exact .ok hm
  | grouping inner => exact .only rfl hm fun _ _ _ => id
  | unary operator operand =>
    refine .first rfl hm (fun _ _ _ => id) fun v s _ hg => ?_
    exact .still hg (Run.still_applyUnary operator v)
  | binary left operator right =>
    refine .first rfl hm (fun _ _ _ => id) fun a s hs hg => ?_
    refine .first hs hg (fun _ _ _ => id) fun b s _ hg => ?_
    exact .still hg (Run.still_applyBinary operator a b)
  | logical left operator right =>
    refine .first rfl hm (fun _ _ _ => id) fun a s hs hg => ?_
    split
    · exact .ok hg
    · exact .only hs hg fun _ _ _ => id
  | read id name => exact .still hm (Run.still_readVariable id name)
  | assign id name value =>
    refine .first rfl hm (fun _ _ _ => (fun h => h)) fun v s _ hg => ?_
    intro t ht
    rcases Run.assignVariable_cases ht with rfl | ⟨f, hb, rfl⟩
    · exact hg
    · exact hg.trans (Store.grows_define _ f name.lexeme v (.inl hb)) fun _ _ _ => (fun h => h)
  | call callee paren arguments =>
    refine .first rfl hm (fun _ _ _ => id) fun f s hs hg => ?_
    refine .first hs hg (fun _ _ _ => id) fun values s hs hg => ?_
    cases f with
    | callable identity function =>
      dsimp only
      split
      · exact .only hs hg fun _ _ _ => id
      · exact .still hg (Run.still_fault _ paren)
    | _ => exact .still hg (Run.still_fault _ paren)
  | function keyword params body => exact .still hm (Run.still_closure none params body)

/-- A declaration adds its name to the active frame. -/
theorem grows_declared {t : Machine} {st : Stmt} {name : String} {v : Value}
    (hs : s.active = m.active) (hg : m.store.Grows s.store ((execute st).Adds m))
    (hd : st.Declares name) (ht : t.store = s.store.define s.active name v) :
    m.store.Grows t.store ((execute st).Adds m) := by
  rw [ht, hs]
  exact hg.trans (Store.grows_define _ m.active name v (.inr ⟨rfl, hd⟩)) fun _ _ _ h => h

theorem grows_execute (st : Stmt) (m : Machine) :
    ((execute st).course context m).Grows m ((execute st).Adds m) := by
  have hm : m.store.Grows m.store ((execute st).Adds m) := .refl _
  have hquiet : ∀ f name, f < m.store.frames.size → False → (execute st).Adds m f name :=
    fun _ _ _ h => h.elim
  cases st with
  | expression value => exact .first rfl hm hquiet fun _ _ _ hg => .ok hg
  | print keyword value => exact .first rfl hm hquiet fun _ _ _ hg => .ok hg
  | var name initializer =>
    cases initializer with
    | none => exact .ok (grows_declared rfl hm (.var name none) rfl)
    | some value =>
      refine .first rfl hm hquiet fun v s hs hg => ?_
      exact .ok (grows_declared hs hg (.var name (some value)) rfl)
  | block body =>
    refine ⟨Store.grows_push _ _ _, fun f name hf hadds => ?_, fun _ _ => ⟨rfl, rfl⟩,
      fun _ _ _ hg => .ok hg⟩
    -- the statements of the block add names to the frame of the block
    exact absurd hadds.1 (Nat.ne_of_lt hf)
  | ifElse condition thenBranch elseBranch =>
    refine .first rfl hm hquiet fun v s hs hg => ?_
    split
    · refine .only hs hg fun f name _ hadds => ?_
      exact ⟨hadds.1.trans hs, .thenBranch hadds.2⟩
    · cases elseBranch with
      | none => exact .ok hg
      | some branch =>
        refine .only hs hg fun f name _ hadds => ?_
        exact ⟨hadds.1.trans hs, .elseBranch hadds.2⟩
  | «while» condition body =>
    refine .only rfl hm fun f name _ hadds => ?_
    exact ⟨hadds.1, .body hadds.2⟩
  | function name params body =>
    intro t ht
    cases ht
    exact grows_declared rfl hm (.function name params body) rfl
  | «return» keyword value =>
    cases value with
    | none => exact .ok hm
    | some value => exact .first rfl hm hquiet fun _ _ _ hg => .ok hg

theorem course_grows (a : Activity) (m : Machine) : (a.course context m).Grows m (a.Adds m) := by
  have hm : m.store.Grows m.store (a.Adds m) := .refl _
  cases a with
  | evaluate e => exact grows_evaluate e m
  | evaluateAll es =>
    cases es with
    | nil => exact .ok hm
    | cons e es =>
      refine .first rfl hm (fun _ _ _ h => h) fun v s hs hg => ?_
      exact .first hs hg (fun _ _ _ h => h) fun vs s _ hg => .ok hg
  | call function paren values =>
    cases function with
    | native name arity => exact .still hm (Run.still_callNative name paren values)
    | closure name params body frame =>
      have hpush : ∀ bindings, m.store.Grows (m.store.push frame bindings)
          ((call (.closure name params body frame) paren values).Adds m) :=
        fun bindings => Store.grows_push _ _ _
      simp only [course]
      split
      · exact .still (hpush _) (Run.still_fault _ paren)
      · refine ⟨hpush _, fun f x hf hadds => ?_, fun _ _ => ⟨rfl, rfl⟩, fun c s _ hg => ?_⟩
        · exact absurd hadds.1 (Nat.ne_of_lt hf)
        · cases c with
          | normal => exact .ok hg
          | returned v => exact .ok hg
  | execute st => exact grows_execute st m
  | executeAll ss =>
    cases ss with
    | nil => exact .ok hm
    | cons st ss =>
      refine .first rfl hm (fun f name _ hadds => ⟨hadds.1, st, List.mem_cons_self, hadds.2⟩) ?_
      intro c s hs hg
      cases c with
      | normal =>
        refine .only hs hg fun f name _ hadds => ?_
        obtain ⟨hf, st', hmem, hd⟩ := hadds
        exact ⟨hf.trans hs, st', List.mem_cons_of_mem _ hmem, hd⟩
      | returned v => exact .ok hg
  | loop condition body =>
    refine .first rfl hm (fun _ _ _ h => h.elim) fun v s hs hg => ?_
    split
    · refine .first hs hg (fun f name _ hadds => ⟨hadds.1.trans hs, hadds.2⟩) fun c s hs hg => ?_
      cases c with
      | normal => exact .only hs hg fun f name _ hadds => ⟨hadds.1.trans hs, hadds.2⟩
      | returned v => exact .ok hg
    · exact .ok hg

end Activity

/-! ## Runs -/

/-- A part that is through has added to the frames what the whole may add. -/
theorem Course.Grows.behind {new : FrameId → String → Prop} {a : Activity} {m₁ : Machine}
    {leave : Machine → Machine} {next : a.Result → Machine → Course α}
    (hc : (part a m₁ leave next).Grows m new) (hs : s.active = m₁.active)
    (hg : m₁.store.Grows s.store (a.Adds m₁)) :
    (leave s).active = m.active ∧ m.store.Grows (leave s).store new := by
  obtain ⟨hbegin, hadds, hleave, -⟩ := hc
  obtain ⟨hactive, hstore⟩ := hleave s hs
  rw [hstore]
  exact ⟨hactive, hbegin.trans hg hadds⟩

namespace Activity

/-- However an activity ends, it has added to the frames what it declares at most. -/
theorem run_grows (n : Nat) (a : Activity) (m : Machine)
    (h : (a.run context n m).state? = some s) : m.store.Grows s.store (a.Adds m) := by
  induction n generalizing a m s with
  | zero =>
    rw [run_zero] at h
    cases h
  | succ n ih =>
    rw [run_succ] at h
    have hcourse : (a.course context m).Grows m (a.Adds m) := course_grows a m
    generalize a.course context m = c at h hcourse
    induction c with
    | ends o => exact hcourse s h
    | part b m₁ leave next ihc =>
      rw [Course.carry] at h
      have hstays : (b.run context n m₁).Stays m₁ := run_stays n b m₁
      have hgrows := fun t => @ih t b m₁
      generalize b.run context n m₁ = o at h hstays hgrows
      cases o with
      | ok v t =>
        obtain ⟨hactive, hg⟩ := hcourse.behind (hstays t rfl).active (hgrows t rfl)
        exact ihc v _ h (hcourse.2.2.2 v _ hactive hg)
      | error e t =>
        cases h
        exact (hcourse.behind (hstays t rfl).active (hgrows t rfl)).2
      | exhausted => cases h

end Activity

/-- Every part is begun with grown frames, and may add to old ones what the whole may. -/
theorem Course.Grows.begins {new : FrameId → String → Prop} {c : Course α} (hc : c.Grows m new) :
    c.Begins context fun b m' => m.store.Grows m'.store new ∧
      ∀ f name, f < m.store.frames.size → b.Adds m' f name → new f name := by
  induction c with
  | ends o => exact trivial
  | part a m₁ leave next ih =>
    refine ⟨⟨hc.1, hc.2.1⟩, fun v s ha => ?_⟩
    obtain ⟨-, n, hn⟩ := id ha
    have hgrows : m₁.store.Grows s.store (a.Adds m₁) := a.run_grows n m₁ (by rw [hn]; rfl)
    obtain ⟨hactive, hg⟩ := hc.behind (ha.stays s rfl).active hgrows
    exact ih v _ (hc.2.2.2 v _ hactive hg)

variable {a b : Activity} {path : Path}

theorem Comes.grows (h : Comes context a m path b m') :
    m.store.Grows m'.store (a.Adds m) ∧
      ∀ f name, f < m.store.frames.size → b.Adds m' f name → a.Adds m f name := by
  induction h with
  | start a m => exact ⟨.refl _, fun _ _ _ h => h⟩
  | @within a m i b m₁ path c m₂ hpart _ ih =>
    obtain ⟨hgrows, hadds⟩ := (a.course_grows m).begins.part hpart
    have hle := hgrows.size
    refine ⟨hgrows.trans ih.1 hadds, fun f name hf hc => ?_⟩
    exact hadds f name hf (ih.2 f name (Nat.lt_of_lt_of_le hf hle) hc)

/-- The machine comes to be `s`, at a moment while `a` goes on from `m` or when `a` ends. -/
def Activity.Reaches (context : Context) (a : Activity) (m s : Machine) : Prop :=
  (∃ path b, Comes context a m path b s) ∨ ∃ n, (a.run context n m).state? = some s

/-- From beginning to end an activity adds to the frames what it declares at most. -/
theorem Activity.Reaches.grows (h : a.Reaches context m s) : m.store.Grows s.store (a.Adds m) := by
  rcases h with ⟨path, b, hcomes⟩ | ⟨n, hn⟩
  · exact hcomes.grows.1
  · exact a.run_grows n m hn

end LoxLang
