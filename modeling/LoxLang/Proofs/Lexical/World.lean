import LoxLang.Proofs.Lexical.Reference

/-!
How frames correspond to cells.

A world says of every frame which frame encloses it, and which cell each name has that has been
declared in it.  Worlds only grow: frames are added, and names to frames that are being filled.
`Corresponds` relates a list of scopes, the frame that is active there and the surroundings: scope by
scope and frame by frame outward, a declared name has a cell, and it is the cell that the surroundings
have for it.  So the distance of a name leads to the frame that has its cell (`Corresponds.find`).
-/

namespace LoxLang.Lexical

structure World where
  /-- How many frames there are. -/
  size : Nat
  /-- The frame around a frame. -/
  outer : FrameId → Option FrameId
  /-- The cell of a name declared in a frame. -/
  cell : FrameId → String → Option CellId

namespace World

/-- Frames keep the frame around them and the cells of their names.  No frame but the one that is
being filled, if any, gets more names. -/
structure Grows (filling : Option FrameId) (w w' : World) : Prop where
  size : w.size ≤ w'.size
  outer : ∀ f < w.size, w'.outer f = w.outer f
  cell : ∀ f < w.size, ∀ name c, w.cell f name = some c → w'.cell f name = some c
  same : ∀ f < w.size, some f ≠ filling → w'.cell f = w.cell f

variable {w w' w'' : World} {filling : Option FrameId}

theorem Grows.refl (filling : Option FrameId) (w : World) : w.Grows filling w :=
  ⟨Nat.le_refl _, fun _ _ => rfl, fun _ _ _ _ h => h, fun _ _ _ => rfl⟩

theorem Grows.trans (h : w.Grows filling w') (h' : w'.Grows filling w'') : w.Grows filling w'' := by
  have hsize := h.size
  refine ⟨Nat.le_trans h.size h'.size, ?_, ?_, ?_⟩
  · intro f hf
    rw [h'.outer f (by omega), h.outer f hf]
  · intro f hf name c hc
    exact h'.cell f (by omega) name c (h.cell f hf name c hc)
  · intro f hf hne
    rw [h'.same f (by omega) hne, h.same f hf hne]

theorem Grows.weaken (h : w.Grows none w') (filling : Option FrameId) : w.Grows filling w' :=
  ⟨h.size, h.outer, h.cell, fun f hf _ => h.same f hf (Option.some_ne_none f)⟩

/-- Filling a frame that was not there before fills none of the old ones. -/
theorem Grows.fresh {f : FrameId} (h : w.Grows (some f) w') (hf : w.size ≤ f) :
    w.Grows none w' := by
  refine ⟨h.size, h.outer, h.cell, ?_⟩
  intro g hg _
  refine h.same g hg ?_
  intro he
  have : g = f := Option.some.inj he
  omega

/-- The frame `distance` steps outward. -/
def ancestor? (w : World) (f : FrameId) : Nat → Option FrameId
  | 0 => some f
  | distance + 1 => (w.outer f).bind fun g => w.ancestor? g distance

/-- One more frame, around which is `f`. -/
def push (w : World) (f : FrameId) : World :=
  { w with
    size := w.size + 1
    outer := fun g => if g = w.size then some f else w.outer g
    cell := fun g => if g = w.size then fun _ => none else w.cell g }

theorem grows_push (w : World) (f : FrameId) : w.Grows none (w.push f) := by
  have hne : ∀ g < w.size, g ≠ w.size := fun g hg => Nat.ne_of_lt hg
  refine ⟨Nat.le_succ _, ?_, ?_, ?_⟩
  · intro g hg
    exact if_neg (hne g hg)
  · intro g hg name c hc
    show (if g = w.size then fun _ => none else w.cell g) name = some c
    rw [if_neg (hne g hg)]
    exact hc
  · intro g hg _
    exact if_neg (hne g hg)

/-- A name with its cell in a frame. -/
def declare (w : World) (f : FrameId) (name : String) (c : CellId) : World :=
  { w with cell := fun g n => if g = f ∧ n = name then some c else w.cell g n }

theorem grows_declare {f : FrameId} {name : String} (c : CellId) (h : w.cell f name = none) :
    w.Grows (some f) (w.declare f name c) := by
  refine ⟨Nat.le_refl _, fun _ _ => rfl, ?_, ?_⟩
  · intro g _ n d hd
    show (if g = f ∧ n = name then some c else w.cell g n) = some d
    rw [if_neg]
    · exact hd
    · rintro ⟨rfl, rfl⟩
      rw [h] at hd
      cases hd
  · intro g _ hne
    funext n
    show (if g = f ∧ n = name then some c else w.cell g n) = w.cell g n
    rw [if_neg]
    rintro ⟨rfl, -⟩
    exact hne rfl

end World

/-! ## Scopes, frames and surroundings -/

/-- The names of the scopes have cells in the frames from `f` outward, and the surroundings have the
cell of the nearest scope that declares a name. -/
inductive CorrespondsWithin (w : World) : Scopes → FrameId → List (String × CellId) → Prop
  | globals : CorrespondsWithin w [] Store.globalFrame []
  | scope {scope scopes f g outside inside} : f < w.size → f ≠ Store.globalFrame →
      w.outer f = some g → CorrespondsWithin w scopes g outside →
      (∀ name, scope.declares name = true →
        ∃ c, w.cell f name = some c ∧ inside.lookup name = some c) →
      (∀ name, scope.declares name = false → inside.lookup name = outside.lookup name) →
      CorrespondsWithin w (scope :: scopes) f inside

/-- At top level there are no scopes, and the global frame is active. -/
def Corresponds (w : World) (scopes : Scopes) (f : FrameId) : Surroundings → Prop
  | .top => scopes = [] ∧ f = Store.globalFrame
  | .within names => scopes ≠ [] ∧ CorrespondsWithin w scopes f names

variable {w w' : World} {filling : Option FrameId} {scopes : Scopes} {f : FrameId}
  {env : Surroundings}

theorem CorrespondsWithin.grows {names : List (String × CellId)}
    (h : CorrespondsWithin w scopes f names) (hw : w.Grows filling w') :
    CorrespondsWithin w' scopes f names := by
  induction h with
  | globals => exact .globals
  | scope hf hne houter _ hdeclared hother ih =>
    refine .scope (Nat.lt_of_lt_of_le hf hw.size) hne ((hw.outer _ hf).trans houter) ih ?_ hother
    intro name hname
    obtain ⟨c, hc, hl⟩ := hdeclared name hname
    exact ⟨c, hw.cell _ hf _ _ hc, hl⟩

theorem Corresponds.grows (h : Corresponds w scopes f env) (hw : w.Grows filling w') :
    Corresponds w' scopes f env := by
  cases env with
  | top => exact h
  | within names => exact ⟨h.1, h.2.grows hw⟩

/-- A new frame goes with a scope that declares nothing yet. -/
theorem Corresponds.enter (h : Corresponds w scopes f env) (hsize : 0 < w.size) :
    Corresponds (w.push f) ({} :: scopes) w.size env.enter := by
  have hgrows := w.grows_push f
  have hlt : w.size < (w.push f).size := Nat.lt_succ_self _
  have hne : w.size ≠ Store.globalFrame := Nat.ne_of_gt hsize
  have houter : (w.push f).outer w.size = some f := if_pos rfl
  cases env with
  | top =>
    obtain ⟨rfl, rfl⟩ := h
    refine ⟨List.cons_ne_nil _ _, ?_⟩
    exact .scope hlt hne houter .globals (fun _ hd => nomatch hd) fun _ _ => rfl
  | within names =>
    refine ⟨List.cons_ne_nil _ _, ?_⟩
    exact .scope hlt hne houter (h.2.grows hgrows) (fun _ hd => nomatch hd) fun _ _ => rfl

/-- Only which names are declared matters, not which are ready. -/
theorem Corresponds.congr {scope scope' : Scope} (h : Corresponds w (scope :: scopes) f env)
    (hs : ∀ name, scope'.declares name = scope.declares name) :
    Corresponds w (scope' :: scopes) f env := by
  cases env with
  | top => exact absurd h.1 (List.cons_ne_nil _ _)
  | within names =>
    obtain ⟨-, h⟩ := h
    cases h with
    | scope hf hne houter hrest hdeclared hother =>
      refine ⟨List.cons_ne_nil _ _, .scope hf hne houter hrest ?_ ?_⟩
      · intro name hname
        exact hdeclared name (hs name ▸ hname)
      · intro name hname
        exact hother name (hs name ▸ hname)

/-- A name declared in the innermost scope, with its cell in the frame and in the surroundings. -/
theorem Corresponds.declare {scope : Scope} {names : List (String × CellId)} {name : String}
    (h : Corresponds w (scope :: scopes) f (.within names)) (c : CellId)
    (hfresh : w.cell f name = none) :
    Corresponds (w.declare f name c) (scope.declare name :: scopes) f
      (.within ((name, c) :: names)) := by
  have hgrows := World.grows_declare c hfresh
  obtain ⟨-, h⟩ := h
  have hcell : (w.declare f name c).cell f name = some c := if_pos ⟨rfl, rfl⟩
  cases h with
  | scope hf hne houter hrest hdeclared hother =>
    refine ⟨List.cons_ne_nil _ _, .scope hf hne houter (hrest.grows hgrows) ?_ ?_⟩
    · intro other hd
      by_cases ho : other = name
      · subst ho
        exact ⟨c, hcell, List.lookup_cons_self⟩
      · have hold : scope.declares other = true := by
          rwa [Scope.declares, Scope.ready?_declare, if_neg ho] at hd
        obtain ⟨d, hd, hl⟩ := hdeclared other hold
        refine ⟨d, hgrows.cell f hf _ _ hd, ?_⟩
        rw [List.lookup_cons, beq_eq_false_iff_ne.2 ho]
        exact hl
    · intro other hd
      have ho : other ≠ name := by
        rintro rfl
        rw [Scope.declares, Scope.ready?_declare, if_pos rfl] at hd
        cases hd
      have hold : scope.declares other = false := by
        rwa [Scope.declares, Scope.ready?_declare, if_neg ho] at hd
      rw [List.lookup_cons, beq_eq_false_iff_ne.2 ho]
      exact hother other hold

/-! ## Finding variables -/

theorem distance?_cons (scope : Scope) (scopes : Scopes) (name : String) :
    Scopes.distance? (scope :: scopes) name =
      if scope.declares name then some 0 else (scopes.distance? name).map (· + 1) := by
  rw [Scopes.distance?, List.findIdx?_cons]
  rfl

/-- The distance of a name leads to the frame that has its cell. -/
theorem CorrespondsWithin.find {names : List (String × CellId)}
    (h : CorrespondsWithin w scopes f names) (name : String) :
    (∃ d g c, scopes.distance? name = some d ∧ w.ancestor? f d = some g ∧
      w.cell g name = some c ∧ names.lookup name = some c) ∨
    (scopes.distance? name = none ∧ names.lookup name = none) := by
  induction h with
  | globals => exact .inr ⟨rfl, rfl⟩
  | @scope scope scopes f g outside inside _ _ houter _ hdeclared hother ih =>
    rw [distance?_cons]
    cases hd : scope.declares name with
    | true =>
      obtain ⟨c, hc, hl⟩ := hdeclared name hd
      exact .inl ⟨0, f, c, rfl, rfl, hc, hl⟩
    | false =>
      rw [hother name hd]
      rcases ih with ⟨d, g', c, hdist, hanc, hc, hl⟩ | ⟨hdist, hl⟩
      · refine .inl ⟨d + 1, g', c, ?_, ?_, hc, hl⟩
        · rw [if_neg Bool.false_ne_true, hdist]
          rfl
        · rw [World.ancestor?, houter]
          exact hanc
      · right
        rw [if_neg Bool.false_ne_true, hdist]
        exact ⟨rfl, hl⟩

theorem Corresponds.find (h : Corresponds w scopes f env) (name : String) :
    (∃ d g c, scopes.distance? name = some d ∧ w.ancestor? f d = some g ∧
      w.cell g name = some c ∧ env.cell? name = some c) ∨
    (scopes.distance? name = none ∧ env.cell? name = none) := by
  cases env with
  | top =>
    obtain ⟨rfl, -⟩ := h
    exact .inr ⟨rfl, rfl⟩
  | within names => exact h.2.find name

end LoxLang.Lexical
