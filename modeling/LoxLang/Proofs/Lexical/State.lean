import LoxLang.Proofs.Lexical.World
import LoxLang.Proofs.Machine.Frames
import LoxLang.Proofs.Machine.Steps
import LoxLang.Proofs.Scope.References
import LoxLang.Proofs.Syntax.Proper

/-!
Machines that correspond.

In a world, a machine with frames and one with cells are related if they agree in what does not
concern variables, every name that has a cell is bound in its frame to what the cell holds, and the
global frame holds what the table holds.  Values are the same up to what functions keep: a frame
here, surroundings there, which correspond for scopes in which the function was resolved.
-/

namespace LoxLang.Lexical

/-- What is found in the parameters and the body of a function, for the scopes around it. -/
def functionFindings (scopes : Scopes) (params : List Token) (body : List Stmt) : List Finding :=
  (Scopes.parameters ({} :: scopes) params).1 ++
    (Stmt.findingsAll true (Scopes.parameters ({} :: scopes) params).2 body).1

section

variable (table : Locals) (bound : NodeId)

/-! ## Values -/

/-- Functions that differ at most in what they keep.  A call enters the surroundings that a function
keeps, so these may have been entered before. -/
inductive SameCallable (w : World) : Callable → Callable Surroundings → Prop
  | native {name arity} : SameCallable w (.native name arity) (.native name arity)
  | closure {name params body f env kept scopes} : Corresponds w scopes f env →
      env.enter = kept.enter → Settled table bound (functionFindings scopes params body) →
      Stmt.ProperAll body →
      SameCallable w (.closure name params body f) (.closure name params body kept)

inductive SameValue (w : World) : Value → Value Surroundings → Prop
  | nil : SameValue w .nil .nil
  | bool (b : Bool) : SameValue w (.bool b) (.bool b)
  | number (x : Float) : SameValue w (.number x) (.number x)
  | string (s : String) : SameValue w (.string s) (.string s)
  | callable {identity function function'} : SameCallable table bound w function function' →
      SameValue w (.callable identity function) (.callable identity function')

/-! ## States -/

/-- The frames and their names are those of the world, and hold what the cells and the table
hold. -/
structure SameStore (w : World) (s : Store) (cells : Array (Option (Value Surroundings)))
    (globals : List (String × Value Surroundings)) : Prop where
  size : s.frames.size = w.size
  outer : ∀ f, s.enclosing? f = w.outer f
  /-- Nothing is around the global frame, and its names have no cells. -/
  outermost : 0 < w.size ∧ w.outer Store.globalFrame = none ∧
    ∀ name, w.cell Store.globalFrame name = none
  range : ∀ {f name c}, w.cell f name = some c → f < w.size ∧ c < cells.size
  injective : ∀ {f g name other c}, w.cell f name = some c → w.cell g other = some c →
    f = g ∧ name = other
  cell : ∀ {f name c}, w.cell f name = some c →
    Option.Rel (SameValue table bound w) (s.read? f name) ((cells[c]?).bind id)
  /-- Only names that have been declared are bound. -/
  undeclared : ∀ {f name}, f ≠ Store.globalFrame → w.cell f name = none → s.read? f name = none
  global : ∀ name,
    Option.Rel (SameValue table bound w) (s.read? Store.globalFrame name) (globals.lookup name)

/-- Related machines, with `f` as the active frame. -/
structure Related (w : World) (f : FrameId) (m : LoxLang.Machine) (r : Machine) : Prop where
  store : SameStore table bound w m.store r.cells r.globals
  active : m.active = f
  depth : m.depth = r.depth
  lines : m.lines = r.lines
  nextCallable : m.nextCallable = r.nextCallable
  nativeCalls : m.nativeCalls = r.nativeCalls

end

variable {table table' : Locals} {bound bound' : NodeId} {w w' : World} {filling : Option FrameId}
  {v : Value} {v' : Value Surroundings}

/-! ## Values in other worlds -/

theorem SameCallable.grows {function : Callable} {function' : Callable Surroundings}
    (h : SameCallable table bound w function function') (hw : w.Grows filling w') :
    SameCallable table bound w' function function' := by
  cases h with
  | native => exact .native
  | closure hc he hs hp => exact .closure (hc.grows hw) he hs hp

theorem SameValue.grows (h : SameValue table bound w v v') (hw : w.Grows filling w') :
    SameValue table bound w' v v' := by
  cases h with
  | nil => exact .nil
  | bool b => exact .bool b
  | number x => exact .number x
  | string s => exact .string s
  | callable hc => exact .callable (hc.grows hw)

/-- A table with further entries. -/
theorem SameValue.mono (h : SameValue table bound w v v') (hbound : bound ≤ bound')
    (htable : ∀ id < bound, table'[id]? = table[id]?) : SameValue table' bound' w v v' := by
  cases h with
  | nil => exact .nil
  | bool b => exact .bool b
  | number x => exact .number x
  | string s => exact .string s
  | callable hc =>
    cases hc with
    | native => exact .callable .native
    | closure hc he hs hp => exact .callable (.closure hc he (hs.mono hbound htable) hp)

/-! ## What programs see of values -/

theorem SameValue.similar (h : SameValue table bound w v v') : v.Similar v' := by
  cases h with
  | nil => exact .nil
  | bool b => exact .bool b
  | number x => exact .number x
  | string s => exact .string s
  | callable hc => exact .callable _ _ _

theorem SameValue.isTruthy_eq (h : SameValue table bound w v v') : v.isTruthy = v'.isTruthy :=
  h.similar.isTruthy_eq

theorem SameValue.display_eq (h : SameValue table bound w v v') : v.display = v'.display := by
  cases h with
  | callable hc =>
    cases hc with
    | native => rfl
    | @closure name => cases name <;> rfl
  | _ => rfl

theorem SameValue.ofConstant (w : World) (c : Constant) :
    SameValue table bound w (.ofConstant c) (.ofConstant c) := by
  cases c with
  | number x => exact .number x
  | string s => exact .string s
  | bool b => exact .bool b
  | nil => exact .nil

theorem SameCallable.arity_eq {function : Callable} {function' : Callable Surroundings}
    (h : SameCallable table bound w function function') : function.arity = function'.arity := by
  cases h <;> rfl

/-! ## Changing the variables -/

section

variable {s : Store} {cells : Array (Option (Value Surroundings))}
  {globals : List (String × Value Surroundings)}

theorem SameStore.ancestor?_eq (h : SameStore table bound w s cells globals) (f : FrameId)
    (distance : Nat) : s.ancestor? f distance = w.ancestor? f distance := by
  induction distance generalizing f with
  | zero => rfl
  | succ d ih =>
    rw [Store.ancestor?, World.ancestor?, h.outer f]
    cases w.outer f with
    | none => rfl
    | some g => exact ih g

/-- A frame without bindings. -/
theorem SameStore.push (h : SameStore table bound w s cells globals) (f : FrameId) :
    SameStore table bound (w.push f) (s.push f []) cells globals := by
  have hgrows := w.grows_push f
  have hnew : ∀ name, (w.push f).cell w.size name = none := fun name =>
    congrFun (if_pos rfl : (w.push f).cell w.size = fun _ => none) name
  have hold : ∀ g ≠ w.size, (w.push f).cell g = w.cell g := fun g hg => if_neg hg
  have hcell : ∀ {g name c}, (w.push f).cell g name = some c → w.cell g name = some c := by
    intro g name c hc
    by_cases hg : g = w.size
    · rw [hg, hnew name] at hc
      cases hc
    · rwa [hold g hg] at hc
  have hglobal : Store.globalFrame ≠ w.size := Nat.ne_of_lt h.outermost.1
  refine ⟨?_, ?_, ⟨Nat.succ_pos _, ?_, ?_⟩, ?_, ?_, ?_, ?_, ?_⟩
  · rw [Store.size_push, h.size]
    rfl
  · intro g
    rw [Store.enclosing?_push, h.size, h.outer g]
    rfl
  · exact (if_neg hglobal).trans h.outermost.2.1
  · intro name
    rw [hold _ hglobal]
    exact h.outermost.2.2 name
  · intro g name c hc
    obtain ⟨hg, hlt⟩ := h.range (hcell hc)
    exact ⟨Nat.lt_succ_of_lt hg, hlt⟩
  · intro g g' name other c hc hc'
    exact h.injective (hcell hc) (hcell hc')
  · intro g name c hc
    rw [Store.read?_push_nil]
    exact rel_mono (h.cell (hcell hc)) fun _ _ hv => hv.grows hgrows
  · intro g name hg hnone
    rw [Store.read?_push_nil]
    by_cases hsize : g = w.size
    · exact Store.read?_eq_none_of_le (hsize ▸ Nat.le_of_eq h.size) name
    · rw [hold g hsize] at hnone
      exact h.undeclared hg hnone
  · intro name
    rw [Store.read?_push_nil]
    exact rel_mono (h.global name) fun _ _ hv => hv.grows hgrows

/-- A new cell, not set yet, for a name that the frame does not bind. -/
theorem SameStore.declare (h : SameStore table bound w s cells globals) {f : FrameId}
    {name : String} (hf : f < w.size) (hlocal : f ≠ Store.globalFrame)
    (hfresh : w.cell f name = none) :
    SameStore table bound (w.declare f name cells.size) s (cells.push none) globals := by
  have hgrows := World.grows_declare cells.size hfresh
  have hcases : ∀ {g other c}, (w.declare f name cells.size).cell g other = some c →
      (g = f ∧ other = name ∧ c = cells.size) ∨ w.cell g other = some c := by
    intro g other c hc
    by_cases hg : g = f ∧ other = name
    · have he : (w.declare f name cells.size).cell g other = some cells.size := if_pos hg
      rw [he] at hc
      exact .inl ⟨hg.1, hg.2, (Option.some.inj hc).symm⟩
    · exact .inr ((if_neg hg).symm.trans hc)
  refine ⟨h.size, h.outer, ⟨h.outermost.1, h.outermost.2.1, ?_⟩, ?_, ?_, ?_, ?_, ?_⟩
  · intro other
    have hne : ¬ (Store.globalFrame = f ∧ other = name) := fun he => hlocal he.1.symm
    exact (if_neg hne).trans (h.outermost.2.2 other)
  · intro g other c hc
    rw [Array.size_push]
    rcases hcases hc with ⟨rfl, -, rfl⟩ | hold
    · exact ⟨hf, Nat.lt_succ_self _⟩
    · exact ⟨(h.range hold).1, Nat.lt_succ_of_lt (h.range hold).2⟩
  · intro g g' other other' c hc hc'
    rcases hcases hc with ⟨rfl, rfl, rfl⟩ | hold
    · rcases hcases hc' with ⟨rfl, rfl, -⟩ | hold'
      · exact ⟨rfl, rfl⟩
      · exact absurd (h.range hold').2 (Nat.lt_irrefl _)
    · rcases hcases hc' with ⟨-, -, rfl⟩ | hold'
      · exact absurd (h.range hold).2 (Nat.lt_irrefl _)
      · exact h.injective hold hold'
  · intro g other c hc
    rcases hcases hc with ⟨rfl, rfl, rfl⟩ | hold
    · rw [h.undeclared hlocal hfresh, Array.getElem?_push_size]
      exact .none
    · rw [Array.getElem?_push, if_neg (Nat.ne_of_lt (h.range hold).2)]
      exact rel_mono (h.cell hold) fun _ _ hv => hv.grows hgrows
  · intro g other hg hnone
    refine h.undeclared hg ?_
    by_cases he : g = f ∧ other = name
    · rw [he.1, he.2]
      exact hfresh
    · exact (if_neg he).symm.trans hnone
  · intro other
    exact rel_mono (h.global other) fun _ _ hv => hv.grows hgrows

/-- A local name is bound in its frame, and its cell is set. -/
theorem SameStore.setCell (h : SameStore table bound w s cells globals) {f : FrameId}
    {name : String} {c : CellId} (hc : w.cell f name = some c)
    (hv : SameValue table bound w v v') :
    SameStore table bound w (s.define f name v) (cells.modify c fun _ => some v') globals := by
  obtain ⟨hf, hlt⟩ := h.range hc
  have hlocal : f ≠ Store.globalFrame := by
    rintro rfl
    rw [h.outermost.2.2 name] at hc
    cases hc
  refine ⟨?_, ?_, h.outermost, ?_, h.injective, ?_, ?_, ?_⟩
  · rw [Store.size_define, h.size]
  · intro g
    rw [Store.enclosing?_define, h.outer g]
  · intro g other d hd
    rw [Array.size_modify]
    exact h.range hd
  · intro g other d hd
    by_cases he : g = f ∧ other = name
    · obtain ⟨rfl, rfl⟩ := he
      obtain rfl : d = c := Option.some.inj (hd.symm.trans hc)
      rw [Store.read?_define_self (h.size.symm ▸ hf), Array.getElem?_modify, if_pos rfl,
        Array.getElem?_eq_getElem hlt]
      exact .some hv
    · have hne : c ≠ d := by
        rintro rfl
        exact he (h.injective hd hc)
      rw [Store.read?_define_other s v he, Array.getElem?_modify, if_neg hne]
      exact h.cell hd
  · intro g other hg hnone
    have he : ¬ (g = f ∧ other = name) := by
      rintro ⟨rfl, rfl⟩
      rw [hnone] at hc
      cases hc
    rw [Store.read?_define_other s v he]
    exact h.undeclared hg hnone
  · intro other
    rw [Store.read?_define_other s v fun he => hlocal he.1.symm]
    exact h.global other

/-- A name is bound in the global frame, and in the table. -/
theorem SameStore.setGlobal (h : SameStore table bound w s cells globals) (name : String)
    (hv : SameValue table bound w v v') :
    SameStore table bound w (s.define Store.globalFrame name v) cells
      (Frame.put name v' globals) := by
  have hlookup : ∀ other, (Frame.put name v' globals).lookup other =
      if other = name then some v' else globals.lookup other :=
    fun other => Frame.get?_set ⟨globals, none⟩ name other v'
  refine ⟨?_, ?_, h.outermost, h.range, h.injective, ?_, ?_, ?_⟩
  · rw [Store.size_define, h.size]
  · intro g
    rw [Store.enclosing?_define, h.outer g]
  · intro g other d hd
    have hne : g ≠ Store.globalFrame := by
      rintro rfl
      rw [h.outermost.2.2 other] at hd
      cases hd
    rw [Store.read?_define_other s v fun he => hne he.1]
    exact h.cell hd
  · intro g other hg hnone
    rw [Store.read?_define_other s v fun he => hg he.1]
    exact h.undeclared hg hnone
  · intro other
    rw [hlookup]
    by_cases he : other = name
    · rw [if_pos he, he, Store.read?_define_self (h.size.symm ▸ h.outermost.1)]
      exact .some hv
    · rw [if_neg he, Store.read?_define_other s v fun hg => he hg.2]
      exact h.global other

end

end LoxLang.Lexical
