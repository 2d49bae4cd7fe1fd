import LoxLang.Proofs.Lexical.Reference

/-!
The bound on the steps of evaluation with cells.

A larger bound changes nothing but that fewer evaluations are short of steps (`refined`).
-/

namespace LoxLang.Lexical

variable {α β : Type}

/-- The second one goes as the first one does, unless the first one is short of steps. -/
def Refines (x y : Run α) : Prop := ∀ r, x r ≠ .exhausted → y r = x r

theorem Refines.refl (x : Run α) : Refines x x := fun _ _ => rfl

theorem Refines.trans {x y z : Run α} (h : Refines x y) (h' : Refines y z) : Refines x z := by
  intro r hne
  have hy := h r hne
  rw [← hy] at hne ⊢
  exact h' r hne

theorem refines_outOfSteps (y : Run α) : Refines Action.outOfSteps y := fun _ h => absurd rfl h

theorem Refines.bind {x y : Run α} {f g : α → Run β} (h : Refines x y)
    (hk : ∀ a, Refines (f a) (g a)) : Refines (x >>= f) (y >>= g) := by
  intro r hne
  have hx := h r
  rw [Action.bind_apply] at hne
  rw [Action.bind_apply, Action.bind_apply]
  generalize x r = o at hne hx ⊢
  cases o with
  | ok a t =>
    rw [hx fun he => by cases he]
    exact hk a t hne
  | error e t => rw [hx fun he => by cases he]
  | exhausted => exact absurd rfl hne

theorem Refines.inCall (paren : Token) {x y : Run α} (h : Refines x y) :
    Refines (Lexical.inCall paren x) (Lexical.inCall paren y) := by
  intro r hne
  rw [inCall_eq] at hne
  rw [inCall_eq, inCall_eq]
  by_cases hdeep : maxCallDepth ≤ r.depth
  · rw [if_pos hdeep, if_pos hdeep]
  · rw [if_neg hdeep] at hne
    rw [if_neg hdeep, if_neg hdeep, h _ fun hx => hne (by rw [hx]; rfl)]

/-- What `m` nested steps do, where `n` are enough, is what the `n` do. -/
structure Refined (reading : Nat → Except String Float) (n m : Nat) : Prop where
  evaluate : ∀ env e, Refines (evaluate reading n env e) (evaluate reading m env e)
  evaluateAll : ∀ env es, Refines (evaluateAll reading n env es) (evaluateAll reading m env es)
  call : ∀ function paren values,
    Refines (call reading n function paren values) (call reading m function paren values)
  execute : ∀ env s, Refines (execute reading n env s) (execute reading m env s)
  executeAll : ∀ env ss, Refines (executeAll reading n env ss) (executeAll reading m env ss)
  loop : ∀ env condition body,
    Refines (loop reading n env condition body) (loop reading m env condition body)

variable {reading : Nat → Except String Float} {n m : Nat} {env : Surroundings}

theorem Refined.evaluate_succ (h : Refined reading n m) (e : Expr) :
    Refines (Lexical.evaluate reading (n + 1) env e) (Lexical.evaluate reading (m + 1) env e) := by
  cases e with
  | constant value => exact .refl _
  | grouping inner => exact h.evaluate env inner
  | unary operator operand => exact (h.evaluate env operand).bind fun _ => .refl _
  | binary left operator right =>
    exact (h.evaluate env left).bind fun _ => (h.evaluate env right).bind fun _ => .refl _
  | logical left operator right =>
    refine (h.evaluate env left).bind fun a => ?_
    by_cases hdecides : Run.decides operator a
    · rw [if_pos hdecides, if_pos hdecides]
      exact .refl _
    · rw [if_neg hdecides, if_neg hdecides]
      exact h.evaluate env right
  | read id name => exact .refl _
  | assign id name value => exact (h.evaluate env value).bind fun _ => .refl _
  | call callee paren arguments =>
    refine (h.evaluate env callee).bind fun f => (h.evaluateAll env arguments).bind fun values => ?_
    cases f with
    | callable identity function =>
      dsimp only
      by_cases hcount : values.length = function.arity
      · rw [if_pos hcount, if_pos hcount]
        exact h.call function paren values
      · rw [if_neg hcount, if_neg hcount]
        exact .refl _
    | _ => exact .refl _
  | function keyword params body => exact .refl _

theorem Refined.evaluateAll_succ (h : Refined reading n m) (es : List Expr) :
    Refines (Lexical.evaluateAll reading (n + 1) env es)
      (Lexical.evaluateAll reading (m + 1) env es) := by
  cases es with
  | nil => exact .refl _
  | cons e es =>
    exact (h.evaluate env e).bind fun _ => (h.evaluateAll env es).bind fun _ => .refl _

theorem Refined.call_succ (h : Refined reading n m) (function : Callable Surroundings)
    (paren : Token) (values : List (Value Surroundings)) :
    Refines (Lexical.call reading (n + 1) function paren values)
      (Lexical.call reading (m + 1) function paren values) := by
  cases function with
  | native name arity => exact .refl _
  | closure name params body kept =>
    refine (Refines.refl _).bind fun inside => ?_
    exact ((h.executeAll inside body).inCall paren).bind fun _ => .refl _

theorem Refined.execute_succ (h : Refined reading n m) (s : Stmt) :
    Refines (Lexical.execute reading (n + 1) env s) (Lexical.execute reading (m + 1) env s) := by
  cases s with
  | expression value => exact (h.evaluate env value).bind fun _ => .refl _
  | print keyword value => exact (h.evaluate env value).bind fun _ => .refl _
  | var name initializer =>
    cases initializer with
    | none => exact .refl _
    | some value => exact (h.evaluate env value).bind fun _ => .refl _
  | block body => exact h.executeAll env.enter body
  | ifElse condition thenBranch elseBranch =>
    refine (h.evaluate env condition).bind fun v => ?_
    by_cases htruthy : v.isTruthy
    · rw [if_pos htruthy, if_pos htruthy]
      exact h.execute env thenBranch
    · rw [if_neg htruthy, if_neg htruthy]
      cases elseBranch with
      | none => exact .refl _
      | some branch => exact h.execute env branch
  | «while» condition body => exact h.loop env condition body
  | function name params body => exact .refl _
  | «return» keyword value =>
    cases value with
    | none => exact .refl _
    | some value => exact (h.evaluate env value).bind fun _ => .refl _

theorem Refined.executeAll_succ (h : Refined reading n m) (ss : List Stmt) :
    Refines (Lexical.executeAll reading (n + 1) env ss)
      (Lexical.executeAll reading (m + 1) env ss) := by
  cases ss with
  | nil => exact .refl _
  | cons s ss =>
    refine (Refines.refl _).bind fun inside => (h.execute inside s).bind fun c => ?_
    cases c with
    | normal => exact h.executeAll inside ss
    | returned v => exact .refl _

theorem Refined.loop_succ (h : Refined reading n m) (condition : Expr) (body : Stmt) :
    Refines (Lexical.loop reading (n + 1) env condition body)
      (Lexical.loop reading (m + 1) env condition body) := by
  refine (h.evaluate env condition).bind fun v => ?_
  by_cases htruthy : v.isTruthy
  · rw [if_pos htruthy, if_pos htruthy]
    refine (h.execute env body).bind fun c => ?_
    cases c with
    | normal => exact h.loop env condition body
    | returned v => exact .refl _
  · rw [if_neg htruthy, if_neg htruthy]
    exact .refl _

/-- The induction is on the smaller bound. -/
theorem refined (reading : Nat → Except String Float) (hle : n ≤ m) : Refined reading n m := by
  induction n generalizing m with
  | zero =>
    exact ⟨fun _ _ => refines_outOfSteps _, fun _ _ => refines_outOfSteps _,
      fun _ _ _ => refines_outOfSteps _, fun _ _ => refines_outOfSteps _,
      fun _ _ => refines_outOfSteps _, fun _ _ _ => refines_outOfSteps _⟩
  | succ n ih =>
    cases m with
    | zero => omega
    | succ m =>
      have h := ih (Nat.le_of_succ_le_succ hle)
      exact ⟨fun _ => h.evaluate_succ, fun _ => h.evaluateAll_succ, h.call_succ,
        fun _ => h.execute_succ, fun _ => h.executeAll_succ, fun _ => h.loop_succ⟩

end LoxLang.Lexical
