import LoxLang.Proofs.Machine.Frames
import LoxLang.Proofs.Machine.Steps
import LoxLang.Proofs.Syntax.Alike
import LoxLang.Proofs.Traced.Evaluation

/-!
Traced machines and plain ones that correspond.

Labels may differ: tokens by a relation for each program of the traced side, node numbers by one
relation for all.  Everything else is the same, frame by frame and name by name; of functions, the
frames that they keep.  The plain machine may have printed some lines before.
-/

namespace LoxLang.Traced

section

variable (r : Nat → Token → Token → Prop) (q : NodeId → NodeId → Prop)

/-! ## Values -/

/-- Functions from trees that are alike, with the same frame. -/
inductive SameCallable : Callable Kept → Callable → Prop
  | native {name arity} : SameCallable (.native name arity) (.native name arity)
  | closure {name params params' body body' frame place} :
      List.Forall₂ (r place.program) params params' →
      Stmt.LikeAll (r place.program) q body body' →
      SameCallable (.closure name params body ⟨frame, place⟩) (.closure name params' body' frame)

inductive SameValue : Value Kept → Value → Prop
  | nil : SameValue .nil .nil
  | bool (b : Bool) : SameValue (.bool b) (.bool b)
  | number (x : Float) : SameValue (.number x) (.number x)
  | string (s : String) : SameValue (.string s) (.string s)
  | callable {identity function function'} : SameCallable r q function function' →
      SameValue (.callable identity function) (.callable identity function')

abbrev SameValues : List (Value Kept) → List Value → Prop := List.Forall₂ (SameValue r q)

inductive SameCompletion : Completion Kept → Completion → Prop
  | normal : SameCompletion .normal .normal
  | returned {v v'} : SameValue r q v v' → SameCompletion (.returned v) (.returned v')

/-! ## States -/

structure SameStore (s : Store Kept) (t : Store) : Prop where
  size : s.frames.size = t.frames.size
  enclosing : ∀ f, s.enclosing? f = t.enclosing? f
  read : ∀ f name, Option.Rel (SameValue r q) (s.read? f name) (t.read? f name)

/-- The states correspond, and the plain machine had printed the given lines before. -/
structure SameState (printed : Array String) (s : State) (m : Machine) : Prop where
  store : SameStore r q s.machine.store m.store
  active : s.machine.active = m.active
  depth : s.machine.depth = m.depth
  lines : m.lines = printed ++ s.machine.lines
  nextCallable : s.machine.nextCallable = m.nextCallable
  nativeCalls : s.machine.nativeCalls = m.nativeCalls

/-- The same fault, at tokens that correspond in the program of the place where it was raised. -/
inductive SameStop : Raised → Stop → Prop
  | fault {cause t t' place} : r place.program t t' →
      SameStop ⟨.fault (.atToken cause t), place⟩ (.fault (.atToken cause t'))
  | malformed {t t' place} : r place.program t t' → SameStop ⟨.malformed t, place⟩ (.malformed t')

end

variable {r : Nat → Token → Token → Prop} {q q' : NodeId → NodeId → Prop} {v : Value Kept}
  {v' : Value}

/-! ## What programs see of values -/

theorem SameValue.similar (h : SameValue r q v v') : v.Similar v' := by
  cases h with
  | nil => exact .nil
  | bool b => exact .bool b
  | number x => exact .number x
  | string s => exact .string s
  | callable hc => exact .callable _ _ _

theorem SameValue.display_eq (h : SameValue r q v v') : v.display = v'.display := by
  cases h with
  | callable hc =>
    cases hc with
    | native => rfl
    | @closure name => cases name <;> rfl
  | _ => rfl

theorem SameValue.ofConstant (c : Constant) : SameValue r q (.ofConstant c) (.ofConstant c) := by
  cases c with
  | number x => exact .number x
  | string s => exact .string s
  | bool b => exact .bool b
  | nil => exact .nil

theorem SameCallable.arity_eq {function : Callable Kept} {function' : Callable}
    (h : SameCallable r q function function') : function.arity = function'.arity := by
  cases h with
  | native => rfl
  | closure hps => exact hps.length_eq

/-! ## More node numbers that correspond -/

section

variable (hq : ∀ i j, q i j → q' i j)

include hq

theorem SameValue.mono (h : SameValue r q v v') : SameValue r q' v v' := by
  cases h with
  | nil => exact .nil
  | bool b => exact .bool b
  | number x => exact .number x
  | string s => exact .string s
  | callable hc =>
    cases hc with
    | native => exact .callable .native
    | closure hps hb => exact .callable (.closure hps (hb.mono (fun _ _ => id) hq))

theorem SameState.mono {printed : Array String} {s : State} {m : Machine}
    (h : SameState r q printed s m) : SameState r q' printed s m :=
  ⟨⟨h.store.size, h.store.enclosing,
    fun f name => rel_mono (h.store.read f name) fun _ _ hv => hv.mono hq⟩,
    h.active, h.depth, h.lines, h.nextCallable, h.nativeCalls⟩

end

/-! ## Finding variables -/

section

variable {s : Store Kept} {t : Store}

theorem SameStore.binds_eq (h : SameStore r q s t) (f : FrameId) (name : String) :
    s.binds f name = t.binds f name := by
  rw [Store.binds_eq_isSome, Store.binds_eq_isSome, rel_isSome (h.read f name)]

theorem SameStore.ancestor?_eq (h : SameStore r q s t) (f : FrameId) (distance : Nat) :
    s.ancestor? f distance = t.ancestor? f distance := by
  induction distance generalizing f with
  | zero => rfl
  | succ d ih => simp only [Store.ancestor?, h.enclosing, ih]

theorem SameStore.owner?_eq (h : SameStore r q s t) (f : FrameId) (name : String) :
    s.owner? f name = t.owner? f name := by
  have hwithin : ∀ steps f, s.ownerWithin? name steps f = t.ownerWithin? name steps f := by
    intro steps
    induction steps with
    | zero => simp only [Store.ownerWithin?, h.binds_eq, implies_true]
    | succ n ih => simp only [Store.ownerWithin?, h.binds_eq, h.enclosing, ih, implies_true]
  rw [Store.owner?, Store.owner?, h.size, hwithin]

theorem SameStore.ownerAt?_eq (h : SameStore r q s t) (f : FrameId) (distance : Nat)
    (name : String) : s.ownerAt? f distance name = t.ownerAt? f distance name := by
  simp only [Store.ownerAt?, h.ancestor?_eq, h.binds_eq]

theorem SameStore.getAt? (h : SameStore r q s t) (f : FrameId) (distance : Nat) (name : String) :
    Option.Rel (SameValue r q) (s.getAt? f distance name) (t.getAt? f distance name) := by
  rw [Store.getAt?, Store.getAt?, h.ancestor?_eq]
  cases t.ancestor? f distance with
  | none => exact .none
  | some g => exact h.read g name

theorem SameStore.get? (h : SameStore r q s t) (f : FrameId) (name : String) :
    Option.Rel (SameValue r q) (s.get? f name) (t.get? f name) := by
  rw [Store.get?, Store.get?, h.owner?_eq]
  cases t.owner? f name with
  | none => exact .none
  | some g => exact h.read g name

/-! ## Binding names -/

theorem SameStore.define (h : SameStore r q s t) (f : FrameId) (name : String)
    (hv : SameValue r q v v') : SameStore r q (s.define f name v) (t.define f name v') := by
  refine ⟨?_, ?_, ?_⟩
  · rw [Store.size_define, Store.size_define, h.size]
  · intro g
    rw [Store.enclosing?_define, Store.enclosing?_define, h.enclosing]
  · intro g other
    by_cases he : g = f ∧ other = name
    · obtain ⟨rfl, rfl⟩ := he
      by_cases hg : g < s.frames.size
      · rw [Store.read?_define_self hg, Store.read?_define_self (h.size ▸ hg)]
        exact .some hv
      · have hout : s.frames.size ≤ g := Nat.le_of_not_lt hg
        rw [Store.read?_eq_none_of_le (by rwa [Store.size_define]),
          Store.read?_eq_none_of_le (by rwa [Store.size_define, ← h.size])]
        exact .none
    · rw [Store.read?_define_other s v he, Store.read?_define_other t v' he]
      exact h.read g other

theorem SameStore.defineAll (h : SameStore r q s t) (f : FrameId) (names : List String)
    {values : List (Value Kept)} {values' : List Value} (hvs : SameValues r q values values') :
    SameStore r q ((names.zip values).foldl (fun s b => s.define f b.1 b.2) s)
      ((names.zip values').foldl (fun t b => t.define f b.1 b.2) t) := by
  induction hvs generalizing names s t with
  | nil =>
    rw [List.zip_nil_right, List.zip_nil_right]
    exact h
  | cons hv _ ih =>
    cases names with
    | nil => exact h
    | cons name names => exact ih (h.define f name hv) names

theorem SameStore.push (h : SameStore r q s t) (f : FrameId) (names : List String)
    {values : List (Value Kept)} {values' : List Value} (hvs : SameValues r q values values') :
    SameStore r q (s.push f (names.zip values)) (t.push f (names.zip values')) := by
  have hempty : SameStore r q (s.push f []) (t.push f []) := by
    refine ⟨?_, ?_, ?_⟩
    · rw [Store.size_push, Store.size_push, h.size]
    · intro g
      rw [Store.enclosing?_push, Store.enclosing?_push, h.size, h.enclosing]
    · intro g name
      rw [Store.read?_push_nil, Store.read?_push_nil]
      exact h.read g name
  have hnext : s.nextFrame = t.nextFrame := h.size
  rw [Store.push_eq_foldl s, Store.push_eq_foldl t, hnext]
  exact hempty.defineAll t.nextFrame names hvs

end

end LoxLang.Traced
