import LoxLang.Proofs.Machine.Growth

/-!
Every frame is enclosed by an older one.

A new frame is enclosed by the active frame or by the one that a function keeps.  In a linked machine
these are frames that there are (`Machine.Linked`), so the new frame is younger; and a linked machine
stays linked, since functions are created in the active frame and native functions give out no frames
but those that they are given (`Activity.Reaches.linked`).
-/

namespace LoxLang

/-! ## Values and the frames they keep -/

/-- What the function keeps is one of the first `n` frames. -/
def Callable.Within (n : Nat) : Callable → Prop
  | .closure _ _ _ frame => frame < n
  | .native _ _ => True

def Value.Within (n : Nat) : Value → Prop
  | .callable _ function => function.Within n
  | _ => True

def Completion.Within (n : Nat) : Completion → Prop
  | .normal => True
  | .returned v => v.Within n

variable {n k : Nat}

theorem Callable.Within.mono {function : Callable} (h : function.Within n) (hle : n ≤ k) :
    function.Within k := by
  cases function with
  | closure name params body frame => exact Nat.lt_of_lt_of_le h hle
  | native name arity => exact trivial

theorem Value.Within.mono {v : Value} (h : v.Within n) (hle : n ≤ k) : v.Within k := by
  cases v with
  | callable identity function => exact Callable.Within.mono h hle
  | _ => exact trivial

theorem Value.within_ofConstant (c : Constant) : (Value.ofConstant c : Value).Within n := by
  cases c <;> exact trivial

/-- Native functions give out no frames but those that they are given. -/
def Host.Discreet (host : Host) : Prop :=
  ∀ name count values v n, host.answer name count values = .ok v →
    (∀ w ∈ values, w.Within n) → v.Within n

theorem Host.discreet_timed (reading : Nat → Except String Float) :
    (Host.timed reading).Discreet := by
  intro name count values v n h _
  simp only [Host.timed] at h
  split at h
  · cases h
    exact trivial
  · cases h

/-! ## Linked machines -/

/-- Every frame is enclosed by an older one, if by any; and the frame that is active and those that
functions keep are frames that there are. -/
structure Machine.Linked (m : Machine) : Prop where
  older : m.store.Older
  active : m.active < m.store.frames.size
  kept : ∀ f name v, m.store.read? f name = some v → v.Within m.store.frames.size

namespace Machine.Linked

variable {m s : Machine}

/-- What has the same frames, one of them active, is linked too. -/
theorem move (h : m.Linked) (hstore : s.store = m.store) (hs : s.active < m.store.frames.size) :
    s.Linked := by
  constructor
  case older => exact hstore ▸ h.older
  case active => exact hstore ▸ hs
  case kept => exact hstore ▸ h.kept

theorem define (h : m.Linked) (f : FrameId) (name : String) {v : Value}
    (hv : v.Within m.store.frames.size) :
    Linked { m with store := m.store.define f name v } := by
  constructor
  case older => exact h.older.define f name v
  case active => exact (Store.size_define m.store f name v).symm ▸ h.active
  case kept =>
    intro g other w hw
    show w.Within (m.store.define f name v).frames.size
    rw [Store.size_define]
    rcases Store.read?_define_cases hw with rfl | hbefore
    · exact hv
    · exact h.kept g other w hbefore

/-- A new frame is enclosed by one that there is. -/
theorem push (h : m.Linked) {f : FrameId} (hf : f < m.store.frames.size)
    {bindings : List (String × Value)} (hb : ∀ b ∈ bindings, b.2.Within m.store.frames.size) :
    Linked { m with store := m.store.push f bindings } := by
  have hsize : (m.store.push f bindings).frames.size = m.store.frames.size + 1 :=
    Store.size_push m.store f bindings
  constructor
  case older => exact h.older.push hf bindings
  case active => exact hsize.symm ▸ Nat.lt_succ_of_lt h.active
  case kept =>
    intro g name v hv
    show v.Within (m.store.push f bindings).frames.size
    rw [hsize]
    rcases Store.read?_push_cases hv with ⟨b, hmem, rfl⟩ | hbefore
    · exact (hb b hmem).mono (Nat.le_succ _)
    · exact (h.kept g name v hbefore).mono (Nat.le_succ _)

/-- A new frame that is active at once. -/
theorem enter (h : m.Linked) {f : FrameId} (hf : f < m.store.frames.size)
    {bindings : List (String × Value)} (hb : ∀ b ∈ bindings, b.2.Within m.store.frames.size)
    (hstore : s.store = m.store.push f bindings) (hs : s.active = m.store.nextFrame) :
    s.Linked := by
  refine (h.push hf hb).move hstore ?_
  rw [hs]
  exact (Store.size_push m.store f bindings).symm ▸ Nat.lt_succ_self _

end Machine.Linked

theorem Machine.linked_start (host : Host) : (Machine.start host : Machine).Linked := by
  refine start_induction host ?_ fun m name arity h => ?_
  · refine ⟨Store.older_initial, Nat.zero_lt_one, fun f name v hv => ?_⟩
    cases f <;> cases hv
  · have hnative : (Value.callable m.nextCallable (.native name arity) : Value).Within
        m.store.frames.size := trivial
    have hdefined := h.define Store.globalFrame name hnative
    exact hdefined.move rfl hdefined.active

/-! ## Single steps -/

/-- The outcome leaves a linked machine behind, and a value that keeps frames of it. -/
abbrev Outcome.Links {α : Type} (o : Outcome Stop Machine α) (good : Nat → α → Prop) : Prop :=
  o.Meets (fun v s => s.Linked ∧ good s.store.frames.size v) (fun _ s => s.Linked) True

namespace Run

variable {context : Context} {m : Machine}

theorem links_declaredOr (h : m.Linked) (name : Token) {o : Option Value}
    (ho : ∀ v ∈ o, v.Within m.store.frames.size) : (declaredOr name o m).Links Value.Within := by
  cases o with
  | none => exact h
  | some v => exact ⟨h, ho v rfl⟩

/-- What is read from a frame has been kept there. -/
theorem links_readVariable (h : m.Linked) (id : NodeId) (name : Token) :
    (readVariable context id name m).Links Value.Within := by
  unfold readVariable
  split
  · refine links_declaredOr h name fun v hv => ?_
    obtain ⟨frame, -, hread⟩ := Option.bind_eq_some_iff.1 hv
    exact h.kept frame name.lexeme v hread
  · refine links_declaredOr h name fun v hv => ?_
    obtain ⟨owner, -, hread⟩ := Option.bind_eq_some_iff.1 hv
    exact h.kept owner name.lexeme v hread

theorem links_assignVariable (h : m.Linked) (id : NodeId) (name : Token) {v : Value}
    (hv : v.Within m.store.frames.size) :
    ((assignVariable context id name v >>= fun _ => pure v) m).Links Value.Within := by
  rw [Action.bind_apply, assignVariable]
  cases owner? context m id name.lexeme with
  | none => exact h
  | some f =>
    refine ⟨h.define f name.lexeme hv, ?_⟩
    show v.Within (m.store.define f name.lexeme v).frames.size
    rw [Store.size_define]
    exact hv

theorem links_conclude (h : m.Linked) (operator : Token) (verdict : Verdict) :
    (conclude operator verdict m : Outcome Stop Machine Value).Links Value.Within := by
  cases verdict with
  | value c => exact ⟨h, Value.within_ofConstant c⟩
  | fault cause => exact h
  | malformed => exact h

theorem links_applyUnary (h : m.Linked) (operator : Token) (v : Value) :
    (applyUnary operator v m).Links Value.Within := by
  obtain ⟨verdict, -, heq⟩ := exists_applyUnary_eq operator v
  rw [heq]
  exact links_conclude h operator verdict

theorem links_applyBinary (h : m.Linked) (operator : Token) (a b : Value) :
    (applyBinary operator a b m).Links Value.Within := by
  obtain ⟨verdict, -, heq⟩ := exists_applyBinary_eq operator a b
  rw [heq]
  exact links_conclude h operator verdict

theorem links_callNative (hh : context.host.Discreet) (h : m.Linked) (name : String) (paren : Token)
    {values : List Value} (hv : ∀ v ∈ values, v.Within m.store.frames.size) :
    (callNative context name paren values m).Links Value.Within := by
  unfold callNative
  split
  · rename_i v hanswer
    exact ⟨h.move rfl h.active, hh _ _ _ v _ hanswer hv⟩
  · exact h.move rfl h.active

/-- A function is created in the active frame. -/
theorem links_closure (h : m.Linked) (name : Option String) (params : List Token)
    (body : List Stmt) : (closure name params body m).Links Value.Within :=
  ⟨h.move rfl h.active, h.active⟩

end Run

/-! ## Activities -/

namespace Activity

/-- The function and the values that are used keep frames of the machine. -/
def Rooted : Activity → Machine → Prop
  | call function _ values, m =>
    function.Within m.store.frames.size ∧ ∀ v ∈ values, v.Within m.store.frames.size
  | _, _ => True

/-- The result keeps some of the first `n` frames only. -/
def Kept (n : Nat) : (a : Activity) → a.Result → Prop
  | evaluate _ => Value.Within n
  | evaluateAll _ => fun vs : List Value => ∀ v ∈ vs, v.Within n
  | call _ _ _ => Value.Within n
  | execute _ => Completion.Within n
  | executeAll _ => Completion.Within n
  | loop _ _ => Completion.Within n

end Activity

variable {context : Context} {m m' s : Machine} {α : Type}

namespace Course

/-- Every part is begun with a linked machine and leaves one behind, and so does the whole. -/
def Links (good : Nat → α → Prop) : Course α → Prop
  | ends o => o.Links good
  | part a m leave next =>
    m.Linked ∧ a.Rooted m ∧
    (∀ s, s.Linked → m.store.frames.size ≤ s.store.frames.size →
      (leave s).Linked ∧ (leave s).store = s.store) ∧
    ∀ v s, s.Linked → m.store.frames.size ≤ s.store.frames.size →
      a.Kept s.store.frames.size v → (next v s).Links good

variable {good : Nat → α → Prop}

theorem Links.first {a : Activity} {next : a.Result → Machine → Course α} (hs : s.Linked)
    (ha : a.Rooted s)
    (hnext : ∀ v t, t.Linked → s.store.frames.size ≤ t.store.frames.size →
      a.Kept t.store.frames.size v → (next v t).Links good) :
    (Course.first a s next).Links good :=
  ⟨hs, ha, fun _ ht _ => ⟨ht, rfl⟩, hnext⟩

end Course

namespace Activity

open Course

theorem links_evaluate (e : Expr) (hm : m.Linked) :
    ((evaluate e).course context m).Links Value.Within := by
  cases e with
  | constant value => exact ⟨hm, Value.within_ofConstant value⟩
  | grouping inner => exact .first hm trivial fun v s hs _ hv => ⟨hs, hv⟩
  | unary operator operand =>
    exact .first hm trivial fun v s hs _ _ => Run.links_applyUnary hs operator v
  | binary left operator right =>
    refine .first hm trivial fun a s hs _ _ => ?_
    exact .first hs trivial fun b s hs _ _ => Run.links_applyBinary hs operator a b
  | logical left operator right =>
    refine .first hm trivial fun a s hs _ ha => ?_
    split
    · exact ⟨hs, ha⟩
    · exact .first hs trivial fun b s hs _ hb => ⟨hs, hb⟩
  | read id name => exact Run.links_readVariable hm id name
  | assign id name value =>
    exact .first hm trivial fun v s hs _ hv => Run.links_assignVariable hs id name hv
  | call callee paren arguments =>
    refine .first hm trivial fun f s hs _ hf => ?_
    refine .first hs trivial fun values t ht hle hvalues => ?_
    have hf' : Value.Within t.store.frames.size f := Value.Within.mono hf hle
    cases f with
    | callable identity function =>
      dsimp only
      split
      · exact .first ht ⟨hf', hvalues⟩ fun v s hs _ hv => ⟨hs, hv⟩
      · exact ht
    | _ => exact ht
  | function keyword params body => exact Run.links_closure hm none params body

theorem links_execute (st : Stmt) (hm : m.Linked) :
    ((execute st).course context m).Links Completion.Within := by
  cases st with
  | expression value => exact .first hm trivial fun v s hs _ _ => ⟨hs, trivial⟩
  | print keyword value =>
    exact .first hm trivial fun v s hs _ _ => ⟨hs.move rfl hs.active, trivial⟩
  | var name initializer =>
    cases initializer with
    | none =>
      have hnil : (Value.nil : Value).Within m.store.frames.size := trivial
      exact ⟨hm.define m.active name.lexeme hnil, trivial⟩
    | some value =>
      exact .first hm trivial fun v s hs _ hv => ⟨hs.define s.active name.lexeme hv, trivial⟩
  | block body =>
    have hnil : ∀ b ∈ ([] : List (String × Value)), b.2.Within m.store.frames.size :=
      fun b hb => absurd hb List.not_mem_nil
    refine ⟨hm.enter hm.active hnil rfl rfl, trivial, fun s hs hle => ⟨?_, rfl⟩,
      fun c s hs _ hc => ⟨hs, hc⟩⟩
    have hlt : m.active < (m.store.push m.active []).frames.size :=
      (Store.size_push m.store m.active []).symm ▸ Nat.lt_succ_of_lt hm.active
    exact hs.move rfl (Nat.lt_of_lt_of_le hlt hle)
  | ifElse condition thenBranch elseBranch =>
    refine .first hm trivial fun v s hs _ _ => ?_
    split
    · exact .first hs trivial fun c s hs _ hc => ⟨hs, hc⟩
    · cases elseBranch with
      | none => exact ⟨hs, trivial⟩
      | some branch => exact .first hs trivial fun c s hs _ hc => ⟨hs, hc⟩
  | «while» condition body => exact .first hm trivial fun c s hs _ hc => ⟨hs, hc⟩
  | function name params body =>
    have hcreated : { m with nextCallable := m.nextCallable + 1 }.Linked := hm.move rfl hm.active
    exact ⟨hcreated.define m.active name.lexeme
      (show Value.Within m.store.frames.size (.callable _ (.closure _ _ _ m.active)) from hm.active),
      trivial⟩
  | «return» keyword value =>
    cases value with
    | none => exact ⟨hm, trivial⟩
    | some value => exact .first hm trivial fun v s hs _ hv => ⟨hs, hv⟩

theorem course_links (hh : context.host.Discreet) (a : Activity) (hm : m.Linked)
    (ha : a.Rooted m) : (a.course context m).Links fun n v => a.Kept n v := by
  cases a with
  | evaluate e => exact links_evaluate e hm
  | evaluateAll es =>
    cases es with
    | nil => exact ⟨hm, fun v hv => absurd hv List.not_mem_nil⟩
    | cons e es =>
      refine .first hm trivial fun v s hs _ hv => ?_
      refine .first hs trivial fun vs t ht hle hvs => ⟨ht, ?_⟩
      exact List.forall_mem_cons.2 ⟨Value.Within.mono hv hle, hvs⟩
  | call function paren values =>
    obtain ⟨hfunction, hvalues⟩ := ha
    cases function with
    | native name arity => exact Run.links_callNative hh hm name paren hvalues
    | closure name params body frame =>
      have hbindings : ∀ b ∈ (params.map (·.lexeme)).zip values,
          b.2.Within m.store.frames.size := fun b hb => hvalues b.2 (List.of_mem_zip hb).2
      simp only [course]
      split
      · exact hm.push hfunction hbindings
      · refine ⟨hm.enter hfunction hbindings rfl rfl, trivial, fun s hs hle => ⟨?_, rfl⟩,
          fun c s hs _ hc => ?_⟩
        · have hlt : m.active < (m.store.push frame
              ((params.map (·.lexeme)).zip values)).frames.size :=
            (Store.size_push m.store frame _).symm ▸ Nat.lt_succ_of_lt hm.active
          exact hs.move rfl (Nat.lt_of_lt_of_le hlt hle)
        · cases c with
          | normal => exact ⟨hs, trivial⟩
          | returned v => exact ⟨hs, hc⟩
  | execute st => exact links_execute st hm
  | executeAll ss =>
    cases ss with
    | nil => exact ⟨hm, trivial⟩
    | cons st ss =>
      refine .first hm trivial fun c s hs _ hc => ?_
      cases c with
      | normal => exact .first hs trivial fun c s hs _ hc => ⟨hs, hc⟩
      | returned v => exact ⟨hs, hc⟩
  | loop condition body =>
    refine .first hm trivial fun v s hs _ _ => ?_
    split
    · refine .first hs trivial fun c s hs _ hc => ?_
      cases c with
      | normal => exact .first hs trivial fun c s hs _ hc => ⟨hs, hc⟩
      | returned v => exact ⟨hs, hc⟩
    · exact ⟨hs, trivial⟩

end Activity

/-! ## Runs -/

/-- What a part leaves behind, once it has been left. -/
theorem Course.Links.behind {good : Nat → α → Prop} {a : Activity} {leave : Machine → Machine}
    {next : a.Result → Machine → Course α} (hc : (part a m leave next).Links good) (hs : s.Linked)
    (hle : m.store.frames.size ≤ s.store.frames.size) :
    (leave s).Linked ∧ ∀ v, a.Kept s.store.frames.size v → (next v (leave s)).Links good := by
  obtain ⟨-, -, hleave, hnext⟩ := hc
  obtain ⟨hlinked, hstore⟩ := hleave s hs hle
  refine ⟨hlinked, fun v hv => hnext v _ hlinked ?_ ?_⟩
  · rw [hstore]
    exact hle
  · rw [hstore]
    exact hv

namespace Activity

theorem run_links (hh : context.host.Discreet) (n : Nat) (a : Activity) (m : Machine)
    (hm : m.Linked) (ha : a.Rooted m) : (a.run context n m).Links fun n v => a.Kept n v := by
  induction n generalizing a m with
  | zero =>
    rw [run_zero]
    exact trivial
  | succ n ih =>
    rw [run_succ]
    have hcourse := course_links hh a hm ha
    generalize a.course context m = c at hcourse
    induction c with
    | ends o => exact hcourse
    | part b m₁ leave next ihc =>
      rw [Course.carry]
      have hgrows := fun s => @run_grows context s n b m₁
      have hlinks := ih b m₁ hcourse.1 hcourse.2.1
      generalize b.run context n m₁ = o at hgrows hlinks
      cases o with
      | ok v s => exact ihc v _ ((hcourse.behind hlinks.1 (hgrows s rfl).size).2 v hlinks.2)
      | error e s => exact (hcourse.behind hlinks (hgrows s rfl).size).1
      | exhausted => exact trivial

end Activity

/-- Every part is begun with a linked machine. -/
theorem Course.Links.begins (hh : context.host.Discreet) {good : Nat → α → Prop} {c : Course α}
    (hc : c.Links good) : c.Begins context fun b m' => m'.Linked ∧ b.Rooted m' := by
  induction c with
  | ends o => exact trivial
  | part a m₁ leave next ih =>
    refine ⟨⟨hc.1, hc.2.1⟩, fun v s ⟨_, n, hn⟩ => ?_⟩
    have hgrows := a.run_grows n m₁ (by rw [hn]; rfl)
    have hlinks := a.run_links hh n m₁ hc.1 hc.2.1
    rw [hn] at hlinks
    exact ih v _ ((hc.behind hlinks.1 hgrows.size).2 v hlinks.2)

variable {a b : Activity} {path : Path}

theorem Comes.linked (hh : context.host.Discreet) (h : Comes context a m path b m') (hm : m.Linked)
    (ha : a.Rooted m) : m'.Linked := by
  induction h with
  | start _ _ => exact hm
  | @within a m i b m₁ path c m₂ hpart _ ih =>
    obtain ⟨hlinked, hrooted⟩ := ((a.course_links hh hm ha).begins hh).part hpart
    exact ih hlinked hrooted

/-- From beginning to end a linked machine is linked. -/
theorem Activity.Reaches.linked (hh : context.host.Discreet) (h : a.Reaches context m s)
    (hm : m.Linked) (ha : a.Rooted m) : s.Linked := by
  rcases h with ⟨path, b, hcomes⟩ | ⟨n, hn⟩
  · exact hcomes.linked hh hm ha
  · exact (a.run_links hh n m hm ha).state? hn (fun _ _ hv => hv.1) fun _ _ he => he

end LoxLang
