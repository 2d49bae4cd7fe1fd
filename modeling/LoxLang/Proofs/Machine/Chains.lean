import Mathlib.Data.Fintype.Card
import LoxLang.Machine
import LoxLang.Proofs.Machine.Frames
import LoxLang.Proofs.Outcome

/-!
Finding variables along a chain of frames.

A chain is what `ancestor?` meets on the way outward.  When no frame is met twice, a chain is no longer
than there are frames (`Acyclic.le_size`), so searching a name by walking outward finds the nearest
frame that binds it, however far that is (`Acyclic.owner?_eq_some_iff`).  From there on a look-up by
name and a look-up by distance are the same thing (`named_access_eq_indexed`).
-/

namespace LoxLang.Store

variable {ε : Type}

/-! ## Chains -/

/-- So many steps outward and so many more. -/
theorem ancestor?_add (s : Store ε) (f : FrameId) (i j : Nat) :
    s.ancestor? f (i + j) = (s.ancestor? f i).bind fun g => s.ancestor? g j := by
  induction i generalizing f with
  | zero => rw [Nat.zero_add, ancestor?, Option.bind_some]
  | succ i ih =>
    rw [Nat.succ_add, ancestor?, ancestor?]
    cases s.enclosing? f with
    | none => rfl
    | some outer => exact ih outer

/-- There is no way further out only where one of the two ways ends. -/
theorem ancestor?_add_eq_none_iff (s : Store ε) (f : FrameId) (i j : Nat) :
    s.ancestor? f (i + j) = none ↔
      s.ancestor? f i = none ∨ ∃ g, s.ancestor? f i = some g ∧ s.ancestor? g j = none := by
  rw [ancestor?_add]
  cases s.ancestor? f i with
  | none => simp
  | some g => simp

/-- Whatever is not at the end of a chain is a frame of the store. -/
theorem lt_size_of_ancestor?_succ {s : Store ε} {f g h : FrameId} {k : Nat}
    (hg : s.ancestor? f k = some g) (hh : s.ancestor? f (k + 1) = some h) :
    g < s.frames.size := by
  rw [ancestor?_add, hg, Option.bind_some, ancestor?] at hh
  obtain ⟨outer, houter, -⟩ := Option.bind_eq_some_iff.1 hh
  exact lt_size_of_enclosing? houter

/-- Where a chain goes on, it has been all the way. -/
theorem isSome_ancestor?_of_le {s : Store ε} {f g : FrameId} {j k : Nat}
    (h : s.ancestor? f k = some g) (hle : j ≤ k) : ∃ i, s.ancestor? f j = some i := by
  obtain ⟨d, rfl⟩ := Nat.exists_eq_add_of_le hle
  rw [ancestor?_add] at h
  obtain ⟨i, hi, -⟩ := Option.bind_eq_some_iff.1 h
  exact ⟨i, hi⟩

/-- No frame encloses itself, at whatever distance. -/
def Acyclic (s : Store ε) : Prop := ∀ f k, s.ancestor? f (k + 1) ≠ some f

/-- Every frame is enclosed by an older one, if by any. -/
def Older (s : Store ε) : Prop := ∀ f outer, s.enclosing? f = some outer → outer < f

/-- Each step outward leads to an older frame, so a chain has no more frames than its first one has
older ones. -/
theorem Older.add_le {s : Store ε} (hs : s.Older) {f g : FrameId} {k : Nat}
    (h : s.ancestor? f k = some g) : g + k ≤ f := by
  induction k generalizing f with
  | zero =>
    obtain rfl := Option.some.inj h
    exact Nat.le_refl f
  | succ k ih =>
    obtain ⟨outer, houter, hrest⟩ := Option.bind_eq_some_iff.1 h
    exact Nat.le_trans (Nat.succ_le_succ (ih hrest)) (hs f outer houter)

theorem Older.acyclic {s : Store ε} (hs : s.Older) : s.Acyclic := by
  intro f k h
  exact Nat.not_lt_of_le (hs.add_le h) (Nat.lt_add_of_pos_right (Nat.succ_pos k))

theorem older_initial : (initial : Store ε).Older := by
  intro f outer h
  cases f <;> cases h

theorem Older.define {s : Store ε} (hs : s.Older) (f : FrameId) (name : String) (value : Value ε) :
    (s.define f name value).Older := by
  intro g outer h
  rw [enclosing?_define] at h
  exact hs g outer h

/-- A new frame is younger than any that it may be enclosed by. -/
theorem Older.push {s : Store ε} (hs : s.Older) {f : FrameId} (hf : f < s.frames.size)
    (bindings : List (String × Value ε)) : (s.push f bindings).Older := by
  intro g outer h
  rw [enclosing?_push] at h
  by_cases hg : g = s.frames.size
  · rw [if_pos hg] at h
    obtain rfl := Option.some.inj h
    rw [hg]
    exact hf
  · rw [if_neg hg] at h
    exact hs g outer h

namespace Acyclic

variable {s : Store ε}

/-- A chain comes by no frame twice. -/
theorem distance_unique (hs : s.Acyclic) {f g : FrameId} {i j : Nat}
    (hi : s.ancestor? f i = some g) (hj : s.ancestor? f j = some g) : i = j := by
  have hnot : ∀ {i j : Nat}, s.ancestor? f i = some g → s.ancestor? f j = some g → ¬ i < j := by
    intro i j hi hj hlt
    obtain ⟨k, rfl⟩ := Nat.exists_eq_add_of_lt hlt
    rw [Nat.add_assoc, ancestor?_add, hi, Option.bind_some] at hj
    exact hs g k hj
  have h₁ := hnot hi hj
  have h₂ := hnot hj hi
  omega

/-- A chain is no longer than there are frames: its frames up to the last one are different frames of
the store. -/
theorem le_size (hs : s.Acyclic) {f g : FrameId} {k : Nat} (h : s.ancestor? f k = some g) :
    k ≤ s.frames.size := by
  have hframe : ∀ j : Fin k, ∃ i : Fin s.frames.size, s.ancestor? f j = some i.1 := by
    intro j
    obtain ⟨i, hi⟩ := isSome_ancestor?_of_le h (Nat.le_of_lt j.2)
    obtain ⟨next, hnext⟩ := isSome_ancestor?_of_le h j.2
    exact ⟨⟨i, lt_size_of_ancestor?_succ hi hnext⟩, hi⟩
  choose frame hframe using hframe
  have hinj : Function.Injective frame := by
    intro i j hij
    apply Fin.ext
    exact hs.distance_unique (hframe i) (by rw [hij]; exact hframe j)
  simpa using Fintype.card_le_of_injective frame hinj

end Acyclic

/-! ## The nearest frame that binds a name -/

/-- `owner` is `k` steps outward from `f` and binds the name, and no frame on the way does. -/
structure Nearest (s : Store ε) (f : FrameId) (name : String) (k : Nat) (owner : FrameId) :
    Prop where
  reached : s.ancestor? f k = some owner
  bound : s.binds owner name = true
  least : ∀ j g, j < k → s.ancestor? f j = some g → s.binds g name = false

/-- The nearest frame is the frame itself or the nearest one from around it. -/
theorem nearest_succ_iff {s : Store ε} {f owner : FrameId} {name : String} {k : Nat} :
    s.Nearest f name (k + 1) owner ↔
      s.binds f name = false ∧ ∃ outer, s.enclosing? f = some outer ∧
        s.Nearest outer name k owner := by
  constructor
  · rintro ⟨hreached, hbound, hleast⟩
    obtain ⟨outer, houter, hrest⟩ := Option.bind_eq_some_iff.1 hreached
    refine ⟨hleast 0 f (Nat.succ_pos k) rfl, outer, houter, hrest, hbound, ?_⟩
    intro j g hj hg
    refine hleast (j + 1) g (by omega) ?_
    rw [ancestor?, houter, Option.bind_some, hg]
  · rintro ⟨hfree, outer, houter, hreached, hbound, hleast⟩
    refine ⟨by rw [ancestor?, houter, Option.bind_some, hreached], hbound, ?_⟩
    intro j g hj hg
    cases j with
    | zero =>
      obtain rfl := Option.some.inj hg
      exact hfree
    | succ j =>
      rw [ancestor?, houter, Option.bind_some] at hg
      exact hleast j g (by omega) hg

theorem ownerWithin?_of_nearest {s : Store ε} {name : String} {owner : FrameId} {k : Nat}
    {f : FrameId} {steps : Nat} (h : s.Nearest f name k owner) (hle : k ≤ steps) :
    s.ownerWithin? name steps f = some owner := by
  induction k generalizing f steps with
  | zero =>
    obtain rfl := Option.some.inj h.reached
    cases steps with
    | zero => exact if_pos h.bound
    | succ steps => exact if_pos h.bound
  | succ k ih =>
    obtain ⟨hfree, outer, houter, hrest⟩ := nearest_succ_iff.1 h
    obtain ⟨steps, rfl⟩ := Nat.exists_eq_add_of_le' (Nat.le_trans (Nat.le_add_left 1 k) hle)
    rw [ownerWithin?, if_neg (by simp [hfree]), houter, Option.bind_some]
    exact ih hrest (by omega)

theorem exists_nearest_of_ownerWithin? {s : Store ε} {name : String} {owner f : FrameId}
    {steps : Nat} (h : s.ownerWithin? name steps f = some owner) :
    ∃ k, s.Nearest f name k owner := by
  have hself : s.binds f name = true → s.Nearest f name 0 f :=
    fun hb => ⟨rfl, hb, fun j _ hj => absurd hj (Nat.not_lt_zero j)⟩
  induction steps generalizing f with
  | zero =>
    by_cases hb : s.binds f name = true
    · rw [ownerWithin?, if_pos hb] at h
      obtain rfl := Option.some.inj h
      exact ⟨0, hself hb⟩
    · rw [ownerWithin?, if_neg hb] at h
      cases h
  | succ steps ih =>
    by_cases hb : s.binds f name = true
    · rw [ownerWithin?, if_pos hb] at h
      obtain rfl := Option.some.inj h
      exact ⟨0, hself hb⟩
    · rw [ownerWithin?, if_neg hb] at h
      obtain ⟨outer, houter, hrest⟩ := Option.bind_eq_some_iff.1 h
      obtain ⟨k, hk⟩ := ih hrest fun hb =>
        ⟨rfl, hb, fun j _ hj => absurd hj (Nat.not_lt_zero j)⟩
      exact ⟨k + 1, nearest_succ_iff.2 ⟨by simpa using hb, outer, houter, hk⟩⟩

/-- The search for a name finds the nearest frame that binds it, at whatever distance. -/
theorem Acyclic.owner?_eq_some_iff {s : Store ε} (hs : s.Acyclic) {f owner : FrameId}
    {name : String} : s.owner? f name = some owner ↔ ∃ k, s.Nearest f name k owner := by
  constructor
  · exact exists_nearest_of_ownerWithin?
  · rintro ⟨k, hk⟩
    exact ownerWithin?_of_nearest hk (hs.le_size hk.reached)

/-! ## Replacing a value -/

/-- `t` is `s` with another value for one name that one frame binds. -/
structure Replaces (s t : Store ε) (f : FrameId) (name : String) (value : Value ε) : Prop where
  bound : s.binds f name = true
  size : t.frames.size = s.frames.size
  links : ∀ g, t.enclosing? g = s.enclosing? g
  values : ∀ g other, t.read? g other =
    if g = f ∧ other = name then some value else s.read? g other

theorem replaces_define {s : Store ε} {f : FrameId} {name : String} (h : s.binds f name = true)
    (value : Value ε) : s.Replaces (s.define f name value) f name value := by
  refine ⟨h, size_define s f name value, fun g => enclosing?_define s f g name value, ?_⟩
  intro g other
  by_cases hsame : g = f ∧ other = name
  · obtain ⟨rfl, rfl⟩ := hsame
    rw [if_pos ⟨rfl, rfl⟩]
    exact read?_define_self (lt_size_of_binds h) other value
  · rw [if_neg hsame]
    exact read?_define_other s value hsame

namespace Replaces

variable {s t : Store ε} {f : FrameId} {name : String} {value : Value ε}

theorem binds_eq (h : s.Replaces t f name value) (g : FrameId) (other : String) :
    t.binds g other = s.binds g other := by
  rw [binds_eq_isSome, binds_eq_isSome, h.values]
  by_cases hsame : g = f ∧ other = name
  · obtain ⟨rfl, rfl⟩ := hsame
    rw [if_pos ⟨rfl, rfl⟩, ← binds_eq_isSome, h.bound]
    rfl
  · rw [if_neg hsame]

theorem ancestor?_eq (h : s.Replaces t f name value) (e : FrameId) (k : Nat) :
    t.ancestor? e k = s.ancestor? e k := by
  induction k generalizing e with
  | zero => rfl
  | succ k ih => simp only [ancestor?, h.links, ih]

/-- No name is nearer or farther than it was. -/
theorem nearest_iff (h : s.Replaces t f name value) {e owner : FrameId} {other : String}
    {k : Nat} : t.Nearest e other k owner ↔ s.Nearest e other k owner := by
  constructor
  · rintro ⟨hreached, hbound, hleast⟩
    refine ⟨by rwa [← h.ancestor?_eq], by rwa [← h.binds_eq], fun j g hj hg => ?_⟩
    rw [← h.binds_eq]
    exact hleast j g hj (by rwa [h.ancestor?_eq])
  · rintro ⟨hreached, hbound, hleast⟩
    refine ⟨by rwa [h.ancestor?_eq], by rwa [h.binds_eq], fun j g hj hg => ?_⟩
    rw [h.binds_eq]
    exact hleast j g hj (by rwa [← h.ancestor?_eq])

theorem acyclic (h : s.Replaces t f name value) (hs : s.Acyclic) : t.Acyclic := by
  intro e k
  rw [h.ancestor?_eq]
  exact hs e k

end Replaces

/-! ## Look-ups that may fail

The token is that of the name; a look-up that finds nothing fails there. -/

/-- The value of the nearest binding of a name. -/
def fetch (f : FrameId) (name : Token) : Action Stop (Store ε) (Value ε) := fun s =>
  Run.declaredOr name (s.get? f name.lexeme) s

/-- The value of a name in the frame `distance` steps outward. -/
def fetchAt (f : FrameId) (distance : Nat) (name : Token) : Action Stop (Store ε) (Value ε) :=
  fun s => Run.declaredOr name (s.getAt? f distance name.lexeme) s

/-- Gives the nearest binding of a name another value. -/
def replace (f : FrameId) (name : Token) (value : Value ε) : Action Stop (Store ε) Unit := fun s =>
  match s.assign? f name.lexeme value with
  | some t => .ok () t
  | none => Run.fault (.notDeclared name.lexeme) name s

/-- Gives a name another value in the frame `distance` steps outward. -/
def replaceAt (f : FrameId) (distance : Nat) (name : Token) (value : Value ε) :
    Action Stop (Store ε) Unit := fun s =>
  match s.assignAt? f distance name.lexeme value with
  | some t => .ok () t
  | none => Run.fault (.notDeclared name.lexeme) name s

/-- The failure of a look-up: the name is not declared, and the store is as before. -/
def undeclared {α : Type} (s : Store ε) (name : Token) : Outcome Stop (Store ε) α :=
  .error (.fault (.atToken (.notDeclared name.lexeme) name)) s

/-- A program reads a variable in the store alone: a local one by its distance, any other by its name
in the global frame. -/
theorem readVariable_eq (context : Context) (id : NodeId) (name : Token) (m : Machine ε) :
    Run.readVariable context id name m =
      ((match context.locals[id]? with
        | some distance => fetchAt m.active distance name
        | none => fetch globalFrame name) m.store).mapState fun s => { m with store := s } := by
  have hfound : ∀ o : Option (Value ε), Run.declaredOr name o m =
      (Run.declaredOr name o m.store).mapState fun s => { m with store := s } := by
    intro o
    cases o <;> rfl
  unfold Run.readVariable
  cases context.locals[id]? with
  | some distance => exact hfound _
  | none => exact hfound _

/-- And so it assigns to one. -/
theorem assignVariable_eq (context : Context) (id : NodeId) (name : Token) (value : Value ε)
    (m : Machine ε) :
    Run.assignVariable context id name value m =
      ((match context.locals[id]? with
        | some distance => replaceAt m.active distance name value
        | none => replace globalFrame name value) m.store).mapState fun s =>
          { m with store := s } := by
  unfold Run.assignVariable Run.owner?
  cases context.locals[id]? with
  | some distance =>
    simp only [replaceAt, assignAt?]
    cases m.store.ownerAt? m.active distance name.lexeme <;> rfl
  | none =>
    simp only [replace, assign?]
    cases m.store.owner? globalFrame name.lexeme <;> rfl

theorem fetch_of_owner {s : Store ε} {f owner : FrameId} {name : Token} {value : Value ε}
    (ho : s.owner? f name.lexeme = some owner) (hr : s.read? owner name.lexeme = some value) :
    fetch f name s = .ok value s := by
  simp only [fetch, get?, ho, Option.bind_some, hr]
  rfl

/-- A look-up by distance that fails leaves the store as it was. -/
theorem fetchAt_failed {s t : Store ε} {f : FrameId} {distance : Nat} {name : Token} {e : Stop}
    (h : fetchAt f distance name s = .error e t) : fetchAt f distance name s = s.undeclared name := by
  unfold fetchAt at h ⊢
  cases hv : s.getAt? f distance name.lexeme with
  | none => rfl
  | some v =>
    rw [hv] at h
    cases h

theorem replaceAt_failed {s t : Store ε} {f : FrameId} {distance : Nat} {name : Token}
    {value : Value ε} {e : Stop} (h : replaceAt f distance name value s = .error e t) :
    replaceAt f distance name value s = s.undeclared name := by
  unfold replaceAt at h ⊢
  cases ht : s.assignAt? f distance name.lexeme value with
  | none => rfl
  | some t =>
    rw [ht] at h
    cases h

/-! ## Names and distances -/

/-- What access by name comes to from a frame `e`, when the nearest binding is `k` steps outward. -/
structure FoundAt (s : Store ε) (e : FrameId) (name : Token) (k : Nat) (owner : FrameId) :
    Prop where
  fetched : ∃ value, s.read? owner name.lexeme = some value ∧
    fetch e name s = .ok value s ∧ fetchAt e k name s = .ok value s
  replaced : ∀ value, ∃ t, replace e name value s = .ok () t ∧
    replaceAt e k name value s = .ok () t ∧ s.Replaces t owner name.lexeme value ∧
      ∀ e' k', (t.Nearest e' name.lexeme k' owner ↔ s.Nearest e' name.lexeme k' owner) ∧
        (s.Nearest e' name.lexeme k' owner → fetch e' name t = .ok value t)

theorem Nearest.foundAt {s : Store ε} (hs : s.Acyclic) {e owner : FrameId} {name : Token} {k : Nat}
    (h : s.Nearest e name.lexeme k owner) : s.FoundAt e name k owner := by
  have howner : s.owner? e name.lexeme = some owner := hs.owner?_eq_some_iff.2 ⟨k, h⟩
  constructor
  case fetched =>
    obtain ⟨value, hvalue⟩ := Option.isSome_iff_exists.1
      ((binds_eq_isSome s owner name.lexeme).symm.trans h.bound)
    refine ⟨value, hvalue, fetch_of_owner howner hvalue, ?_⟩
    simp only [fetchAt, getAt?, h.reached, Option.bind_some, hvalue]
    rfl
  case replaced =>
    intro value
    have hreplaces := replaces_define h.bound value
    refine ⟨s.define owner name.lexeme value, ?_, ?_, hreplaces, fun e' k' =>
      ⟨hreplaces.nearest_iff, fun h' => ?_⟩⟩
    · simp only [replace, assign?, howner, Option.map_some]
    · simp only [replaceAt, assignAt?, ownerAt?, h.reached, Option.filter_some, h.bound, if_true,
        Option.map_some]
    · have howner' : (s.define owner name.lexeme value).owner? e' name.lexeme = some owner :=
        (hreplaces.acyclic hs).owner?_eq_some_iff.2 ⟨k', hreplaces.nearest_iff.2 h'⟩
      refine fetch_of_owner howner' ?_
      rw [hreplaces.values, if_pos ⟨rfl, rfl⟩]

/-- Without a binding on the way outward access by name fails. -/
theorem Acyclic.undeclared {s : Store ε} (hs : s.Acyclic) {e : FrameId} {name : Token}
    (h : ¬ ∃ k owner, s.Nearest e name.lexeme k owner) :
    fetch e name s = s.undeclared name ∧
      ∀ value, replace e name value s = s.undeclared name := by
  have hnone : s.owner? e name.lexeme = none := by
    cases ho : s.owner? e name.lexeme with
    | none => rfl
    | some owner =>
      obtain ⟨k, hk⟩ := hs.owner?_eq_some_iff.1 ho
      exact absurd ⟨k, owner, hk⟩ h
  constructor
  · simp only [fetch, get?, hnone, Option.bind_none]
    rfl
  · intro value
    simp only [replace, assign?, hnone, Option.map_none]
    rfl

/-- Access by name is access at the distance of the nearest binding, and fails without one; a failure
changes nothing; and distances add up. -/
theorem named_access_eq_indexed (s : Store ε) (hs : s.Acyclic) (e : FrameId) (name : Token) :
    (∀ k owner, s.Nearest e name.lexeme k owner → s.FoundAt e name k owner) ∧
    ((¬ ∃ k owner, s.Nearest e name.lexeme k owner) →
      fetch e name s = s.undeclared name ∧
        ∀ value, replace e name value s = s.undeclared name) ∧
    (∀ k stop t, fetchAt e k name s = .error stop t →
      fetchAt e k name s = s.undeclared name) ∧
    (∀ k value stop t, replaceAt e k name value s = .error stop t →
      replaceAt e k name value s = s.undeclared name) ∧
    ∀ i j, s.ancestor? e (i + j) = ((s.ancestor? e i).bind fun g => s.ancestor? g j) ∧
      (s.ancestor? e (i + j) = none ↔
        s.ancestor? e i = none ∨ ∃ g, s.ancestor? e i = some g ∧ s.ancestor? g j = none) := by
  refine ⟨fun k owner h => h.foundAt hs, hs.undeclared, ?_, ?_, ?_⟩
  · intro k stop t h
    exact fetchAt_failed h
  · intro k value stop t h
    exact replaceAt_failed h
  · intro i j
    exact ⟨ancestor?_add s e i j, ancestor?_add_eq_none_iff s e i j⟩

/-- Of two frames that bind a name the nearer one is found, from the empty frame that it encloses. -/
theorem named_access_eq_indexed_shadowed :
    let s : Store := ((initial.define globalFrame "a" .nil).push globalFrame [("a", .bool true)]).push 1 []
    s.Acyclic ∧ s.Nearest 2 "a" 1 1 ∧ s.FoundAt 2 ⟨.identifier, "a", none, 1⟩ 1 1 := by
  intro s
  have hs : s.Acyclic :=
    (((older_initial.define globalFrame "a" .nil).push (by decide) _).push (by decide) _).acyclic
  have hnearest : s.Nearest 2 "a" 1 1 := by
    refine ⟨rfl, rfl, fun j g hj hg => ?_⟩
    obtain rfl : j = 0 := by omega
    obtain rfl := Option.some.inj hg
    rfl
  exact ⟨hs, hnearest, (named_access_eq_indexed s hs 2 ⟨.identifier, "a", none, 1⟩).1 1 1 hnearest⟩

end LoxLang.Store
