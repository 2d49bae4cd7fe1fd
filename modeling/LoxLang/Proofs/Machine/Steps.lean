import LoxLang.Machine.Operators
import LoxLang.Proofs.Outcome

/-!
Single steps of machines.

Operators look at the type and the contents of a value, and at nothing that a function keeps.  So on
similar values they come to one verdict: a constant, or a fault at the operator (`applyUnary_verdict`,
`applyBinary_verdict`).  None of these faults is about a name.  A frame or a call is entered before,
and left on every way out (`inFrame_eq`, `inCall_eq`).  Most other steps leave the machine where it is
and its frames as they are (`Still`).  A session starts with the registration of the native functions,
one after the other (`Machine.start_induction`).
-/

namespace LoxLang

variable {ε ε' σ τ : Type}

/-! ## Optional values -/

section

variable {α β γ δ : Type} {R R' : α → β → Prop} {o : Option α} {o' : Option β}

theorem rel_imp (h : Option.Rel R o o')
    (hr : ∀ a b, o = some a → o' = some b → R a b → R' a b) : Option.Rel R' o o' := by
  cases h with
  | none => exact .none
  | some hab => exact .some (hr _ _ rfl rfl hab)

theorem rel_mono (h : Option.Rel R o o') (hr : ∀ a b, R a b → R' a b) : Option.Rel R' o o' :=
  rel_imp h fun a b _ _ => hr a b

theorem rel_bind {S : γ → δ → Prop} {f : α → Option γ} {g : β → Option δ} (h : Option.Rel R o o')
    (hf : ∀ a b, o = some a → o' = some b → R a b → Option.Rel S (f a) (g b)) :
    Option.Rel S (o.bind f) (o'.bind g) := by
  cases h with
  | none => exact .none
  | some hab => exact hf _ _ rfl rfl hab

theorem rel_isSome (h : Option.Rel R o o') : o.isSome = o'.isSome := by
  cases h with
  | none => rfl
  | some _ => rfl

theorem rel_none (h : Option.Rel R none o') : o' = none := by
  cases h
  rfl

theorem rel_some {a : α} (h : Option.Rel R (some a) o') : ∃ b, o' = some b ∧ R a b := by
  cases h with
  | some hab => exact ⟨_, rfl, hab⟩

end

/-! ## Similar values -/

/-- Values that differ in functions at most; the numbers of callables are the same. -/
inductive Value.Similar : Value ε → Value ε' → Prop
  | nil : Value.Similar .nil .nil
  | bool (b : Bool) : Value.Similar (.bool b) (.bool b)
  | number (x : Float) : Value.Similar (.number x) (.number x)
  | string (s : String) : Value.Similar (.string s) (.string s)
  | callable (identity : Nat) (function : Callable ε) (function' : Callable ε') :
      Value.Similar (.callable identity function) (.callable identity function')

namespace Value.Similar

theorem refl (v : Value ε) : v.Similar v := by
  cases v with
  | nil => exact .nil
  | bool b => exact .bool b
  | number x => exact .number x
  | string s => exact .string s
  | callable identity function => exact .callable identity function function

variable {a b : Value ε} {a' b' : Value ε'}

theorem isTruthy_eq (h : a.Similar a') : a.isTruthy = a'.isTruthy := by
  cases h <;> rfl

theorem equals_eq (ha : a.Similar a') (hb : b.Similar b') : a.equals b = a'.equals b' := by
  cases ha <;> cases hb <;> rfl

end Value.Similar

/-! ## Operators -/

namespace Run

theorem decides_similar {operator operator' : Token} {v : Value ε} {v' : Value ε'}
    (hk : operator.kind = operator'.kind) (h : v.Similar v') :
    decides operator v = decides operator' v' := by
  unfold decides
  rw [hk, h.isTruthy_eq]

/-- What an operator comes to. -/
inductive Verdict
  | value (constant : Constant)
  | fault (cause : Cause)
  | malformed

/-- The verdict carried out at the operator. -/
def conclude (operator : Token) : Verdict → Action Stop σ (Value ε)
  | .value c => pure (.ofConstant c)
  | .fault cause => fault cause operator
  | .malformed => Action.fail (.malformed operator)

/-- Not a fault about a name. -/
def Verdict.Nameless : Verdict → Prop
  | .fault (.notDeclared _) => False
  | _ => True

theorem applyUnary_verdict {operator operator' : Token} {v : Value ε} {v' : Value ε'}
    (hk : operator.kind = operator'.kind) (h : v.Similar v') :
    ∃ verdict : Verdict, verdict.Nameless ∧
      (applyUnary operator v : Action Stop σ (Value ε)) = conclude operator verdict ∧
      (applyUnary operator' v' : Action Stop τ (Value ε')) = conclude operator' verdict := by
  unfold applyUnary
  rw [← hk]
  split
  · exact ⟨.value (.bool !v.isTruthy), trivial, rfl, by rw [h.isTruthy_eq]; rfl⟩
  · cases h with
    | number x => exact ⟨.value (.number (-x)), trivial, rfl, rfl⟩
    | nil => exact ⟨.fault .operandNotNumber, trivial, rfl, rfl⟩
    | bool b => exact ⟨.fault .operandNotNumber, trivial, rfl, rfl⟩
    | string s => exact ⟨.fault .operandNotNumber, trivial, rfl, rfl⟩
    | callable => exact ⟨.fault .operandNotNumber, trivial, rfl, rfl⟩
  · exact ⟨.malformed, trivial, rfl, rfl⟩

theorem exists_applyUnary_eq (operator : Token) (v : Value ε) :
    ∃ verdict : Verdict, verdict.Nameless ∧
      (applyUnary operator v : Action Stop σ (Value ε)) = conclude operator verdict := by
  obtain ⟨verdict, hnameless, heq, -⟩ :=
    applyUnary_verdict (σ := σ) (τ := σ) (rfl : operator.kind = _) (Value.Similar.refl v)
  exact ⟨verdict, hnameless, heq⟩

/-- An operator on two numbers gives a constant. -/
theorem numberOperation?_constant (kind : Kind) :
    ∃ o : Option (Float → Float → Constant), ∀ ε : Type,
      (numberOperation? kind : Option (Float → Float → Value ε)) =
        o.map fun operation x y => .ofConstant (operation x y) := by
  cases kind with
  | dash => exact ⟨some fun a b => .number (a - b), fun _ => rfl⟩
  | star => exact ⟨some fun a b => .number (a * b), fun _ => rfl⟩
  | slash => exact ⟨some fun a b => .number (a / b), fun _ => rfl⟩
  | percent => exact ⟨some fun a b => .number (Number.remainder a b), fun _ => rfl⟩
  | less => exact ⟨some fun a b => .bool (a < b), fun _ => rfl⟩
  | lessEquals => exact ⟨some fun a b => .bool (a ≤ b), fun _ => rfl⟩
  | greater => exact ⟨some fun a b => .bool (b < a), fun _ => rfl⟩
  | greaterEquals => exact ⟨some fun a b => .bool (b ≤ a), fun _ => rfl⟩
  | _ => exact ⟨none, fun _ => rfl⟩

theorem applyBinary_verdict {operator operator' : Token} {a b : Value ε} {a' b' : Value ε'}
    (hk : operator.kind = operator'.kind) (ha : a.Similar a') (hb : b.Similar b') :
    ∃ verdict : Verdict, verdict.Nameless ∧
      (applyBinary operator a b : Action Stop σ (Value ε)) = conclude operator verdict ∧
      (applyBinary operator' a' b' : Action Stop τ (Value ε')) = conclude operator' verdict := by
  unfold applyBinary
  rw [← hk]
  split
  · exact ⟨.value (.bool (a.equals b)), trivial, rfl, by rw [ha.equals_eq hb]; rfl⟩
  · exact ⟨.value (.bool !(a.equals b)), trivial, rfl, by rw [ha.equals_eq hb]; rfl⟩
  · have hother : ∃ verdict : Verdict, verdict.Nameless ∧
        (fault .operandsNotAddable operator : Action Stop σ (Value ε)) =
          conclude operator verdict ∧
        (fault .operandsNotAddable operator' : Action Stop τ (Value ε')) =
          conclude operator' verdict := ⟨.fault .operandsNotAddable, trivial, rfl, rfl⟩
    cases ha with
    | number x =>
      cases hb with
      | number y => exact ⟨.value (.number (x + y)), trivial, rfl, rfl⟩
      | _ => exact hother
    | string s =>
      cases hb with
      | string t => exact ⟨.value (.string (s ++ t)), trivial, rfl, rfl⟩
      | _ => exact hother
    | _ => exact hother
  · have hother : ∃ verdict : Verdict, verdict.Nameless ∧
        (fault .operandsNotNumbers operator : Action Stop σ (Value ε)) =
          conclude operator verdict ∧
        (fault .operandsNotNumbers operator' : Action Stop τ (Value ε')) =
          conclude operator' verdict := ⟨.fault .operandsNotNumbers, trivial, rfl, rfl⟩
    cases ha with
    | number x =>
      cases hb with
      | number y =>
        obtain ⟨o, ho⟩ := numberOperation?_constant operator.kind
        simp only [ho]
        cases o with
        | none => exact ⟨.malformed, trivial, rfl, rfl⟩
        | some operation => exact ⟨.value (operation x y), trivial, rfl, rfl⟩
      | _ => exact hother
    | _ => exact hother

theorem exists_applyBinary_eq (operator : Token) (a b : Value ε) :
    ∃ verdict : Verdict, verdict.Nameless ∧
      (applyBinary operator a b : Action Stop σ (Value ε)) = conclude operator verdict := by
  obtain ⟨verdict, hnameless, heq, -⟩ := applyBinary_verdict (σ := σ) (τ := σ)
    (rfl : operator.kind = _) (Value.Similar.refl a) (Value.Similar.refl b)
  exact ⟨verdict, hnameless, heq⟩

/-! ## Steps that move nothing -/

section

variable {α : Type} {context : Context}

/-- However the step ends, the frames, the active one and the depth of calls are as before. -/
def Still (x : Run α) : Prop :=
  ∀ m s, (x m).state? = some s → s.store = m.store ∧ s.active = m.active ∧ s.depth = m.depth

theorem still_fault (cause : Cause) (token : Token) : Still (fault cause token : Run α) := by
  intro m s h
  cases h
  exact ⟨rfl, rfl, rfl⟩

theorem still_declaredOr (name : Token) (o : Option Value) : Still (declaredOr name o) := by
  intro m s h
  cases o <;> cases h <;> exact ⟨rfl, rfl, rfl⟩

theorem still_readVariable (id : NodeId) (name : Token) :
    Still (readVariable context id name) := by
  intro m s h
  unfold readVariable at h
  split at h
  · exact still_declaredOr name _ m s h
  · exact still_declaredOr name _ m s h

theorem still_conclude (operator : Token) (verdict : Verdict) :
    Still (conclude operator verdict : Run Value) := by
  intro m s h
  cases verdict <;> cases h <;> exact ⟨rfl, rfl, rfl⟩

theorem still_applyUnary (operator : Token) (v : Value) : Still (applyUnary operator v) := by
  obtain ⟨verdict, -, heq⟩ := exists_applyUnary_eq operator v
  rw [heq]
  exact still_conclude operator verdict

theorem still_applyBinary (operator : Token) (a b : Value) :
    Still (applyBinary operator a b) := by
  obtain ⟨verdict, -, heq⟩ := exists_applyBinary_eq operator a b
  rw [heq]
  exact still_conclude operator verdict

theorem still_callNative (name : String) (paren : Token) (values : List Value) :
    Still (callNative context name paren values) := by
  intro m s h
  unfold callNative at h
  split at h <;> cases h <;> exact ⟨rfl, rfl, rfl⟩

theorem still_closure (name : Option String) (params : List Token) (body : List Stmt) :
    Still (closure name params body) := by
  intro m s h
  cases h
  exact ⟨rfl, rfl, rfl⟩

end

/-! ## Entering and leaving -/

variable {α : Type}

theorem inFrame_eq (f : FrameId) (x : RunOver ε α) (m : Machine ε) :
    inFrame f x m =
      (x { m with active := f }).mapState fun m' => { m' with active := m.active } := by
  rw [inFrame]
  cases x { m with active := f } <;> rfl

theorem inCall_eq (paren : Token) (x : RunOver ε α) (m : Machine ε) :
    inCall paren x m =
      if maxCallDepth ≤ m.depth then fault (.callsTooDeep maxCallDepth) paren m
      else (x { m with depth := m.depth + 1 }).mapState fun m' =>
        { m' with depth := m'.depth - 1 } := by
  rw [inCall]
  split
  · rfl
  · cases x { m with depth := m.depth + 1 } <;> rfl

end Run

/-! ## The start of a session -/

/-- What the registration of a native function preserves holds at the start of every session. -/
theorem Machine.start_induction {P : Machine ε → Prop} (host : Host) (hbare : P .bare)
    (hregister : ∀ m name arity, P m → P (m.register name arity)) : P (.start host) :=
  List.foldlRecOn host.natives _ hbare fun m hm native _ => hregister m native.1 native.2 hm

end LoxLang
