import LoxLang.Proofs.Traced.Sessions

/-!
The bound on the steps of a run.

A larger bound changes nothing but that fewer runs are short of steps (`refined`).  So a run that ends
within some bound ends within every larger one, with the same report and at the same places
(`run_mono`).
-/

namespace LoxLang.Traced

variable {α β : Type}

/-- The second one goes as the first one does, unless the first one is short of steps. -/
def Refines (x y : Traced α) : Prop := ∀ s, (x s).2 ≠ .exhausted → y s = x s

theorem Refines.refl (x : Traced α) : Refines x x := fun _ _ => rfl

theorem refines_outOfSteps (y : Traced α) : Refines outOfSteps y := fun _ h => absurd rfl h

theorem Refines.bind {x y : Traced α} {f g : α → Traced β} (h : Refines x y)
    (hk : ∀ a, Refines (f a) (g a)) : Refines (x >>= f) (y >>= g) := by
  intro s hne
  change (Traced.bind x f s).2 ≠ _ at hne
  show Traced.bind y g s = Traced.bind x f s
  have hx := h s
  rw [Traced.bind] at hne
  rw [Traced.bind, Traced.bind]
  generalize x s = o at hne hx ⊢
  obtain ⟨visits, o⟩ := o
  cases o with
  | ok a t =>
    rw [hx (by simp)]
    dsimp only at hne ⊢
    rw [hk a t hne]
  | error e t => rw [hx (by simp)]
  | exhausted => exact absurd rfl hne

/-- What comes before is the same. -/
theorem Refines.behind (x : Traced α) {f g : α → Traced β} (hk : ∀ a, Refines (f a) (g a)) :
    Refines (x >>= f) (x >>= g) :=
  (Refines.refl x).bind hk

theorem Refines.inFrame (f : FrameId) {x y : Traced α} (h : Refines x y) :
    Refines (Traced.inFrame f x) (Traced.inFrame f y) := by
  intro s hne
  rw [Traced.inFrame] at hne
  rw [Traced.inFrame, Traced.inFrame, h _ fun hx => hne (by rw [hx]; rfl)]

theorem Refines.inCall (p : Place) (paren : Token) {x y : Traced α} (h : Refines x y) :
    Refines (Traced.inCall p paren x) (Traced.inCall p paren y) := by
  intro s hne
  rw [Traced.inCall] at hne
  rw [Traced.inCall, Traced.inCall]
  by_cases hdeep : maxCallDepth ≤ s.machine.depth
  · rw [if_pos hdeep, if_pos hdeep]
  · rw [if_neg hdeep] at hne
    rw [if_neg hdeep, if_neg hdeep]
    dsimp only at hne ⊢
    rw [h _ fun hx => hne (by rw [hx]; rfl)]

/-- What `m` nested steps do, where `n` are enough, is what the `n` do. -/
structure Refined (reading : Nat → Except String Float) (table : Locals) (n m : Nat) : Prop where
  evaluate : ∀ p e, Refines (evaluate reading table n p e) (evaluate reading table m p e)
  evaluateAll : ∀ p i es,
    Refines (evaluateAll reading table n p i es) (evaluateAll reading table m p i es)
  call : ∀ p function paren values, Refines (call reading table n p function paren values)
    (call reading table m p function paren values)
  execute : ∀ p s, Refines (execute reading table n p s) (execute reading table m p s)
  executeAll : ∀ p i ss,
    Refines (executeAll reading table n p i ss) (executeAll reading table m p i ss)
  loop : ∀ p condition body,
    Refines (loop reading table n p condition body) (loop reading table m p condition body)

variable {reading : Nat → Except String Float} {table : Locals} {n m : Nat} {p : Place}

theorem Refined.evaluate_succ (h : Refined reading table n m) (e : Expr) :
    Refines (Traced.evaluate reading table (n + 1) p e)
      (Traced.evaluate reading table (m + 1) p e) := by
  refine .behind (visit p (.expression e)) fun _ => ?_
  cases e with
  | constant value => exact .refl _
  | grouping inner => exact h.evaluate _ inner
  | unary operator operand => exact (h.evaluate _ operand).bind fun _ => .refl _
  | binary left operator right =>
    exact (h.evaluate _ left).bind fun _ => (h.evaluate _ right).bind fun _ => .refl _
  | logical left operator right =>
    refine (h.evaluate _ left).bind fun a => ?_
    by_cases hdecides : Run.decides operator a
    · rw [if_pos hdecides, if_pos hdecides]
      exact .refl _
    · rw [if_neg hdecides, if_neg hdecides]
      exact h.evaluate _ right
  | read id name => exact .refl _
  | assign id name value => exact (h.evaluate _ value).bind fun _ => .refl _
  | call callee paren arguments =>
    refine (h.evaluate _ callee).bind fun f => (h.evaluateAll _ _ arguments).bind fun values => ?_
    cases f with
    | callable identity function =>
      dsimp only
      by_cases hcount : values.length = function.arity
      · rw [if_pos hcount, if_pos hcount]
        exact h.call _ function paren values
      · rw [if_neg hcount, if_neg hcount]
        exact .refl _
    | _ => exact .refl _
  | function keyword params body => exact .refl _

theorem Refined.evaluateAll_succ (h : Refined reading table n m) (i : Nat) (es : List Expr) :
    Refines (Traced.evaluateAll reading table (n + 1) p i es)
      (Traced.evaluateAll reading table (m + 1) p i es) := by
  cases es with
  | nil => exact .refl _
  | cons e es =>
    exact (h.evaluate _ e).bind fun _ => (h.evaluateAll _ _ es).bind fun _ => .refl _

theorem Refined.call_succ (h : Refined reading table n m) (function : Callable Kept) (paren : Token)
    (values : List (Value Kept)) :
    Refines (Traced.call reading table (n + 1) p function paren values)
      (Traced.call reading table (m + 1) p function paren values) := by
  cases function with
  | native name arity => exact .refl _
  | closure name params body kept =>
    refine .behind _ fun f => ?_
    exact ((h.executeAll kept.place 0 body).inFrame f |>.inCall p paren).bind fun _ => .refl _

theorem Refined.execute_succ (h : Refined reading table n m) (s : Stmt) :
    Refines (Traced.execute reading table (n + 1) p s)
      (Traced.execute reading table (m + 1) p s) := by
  refine .behind (visit p (.statement s)) fun _ => ?_
  cases s with
  | expression value => exact (h.evaluate _ value).bind fun _ => .refl _
  | print keyword value => exact (h.evaluate _ value).bind fun _ => .refl _
  | var name initializer =>
    cases initializer with
    | none => exact .refl _
    | some value => exact (h.evaluate _ value).bind fun _ => .refl _
  | block body => exact .behind _ fun f => (h.executeAll p 0 body).inFrame f
  | ifElse condition thenBranch elseBranch =>
    refine (h.evaluate _ condition).bind fun v => ?_
    by_cases htruthy : v.isTruthy
    · rw [if_pos htruthy, if_pos htruthy]
      exact h.execute _ thenBranch
    · rw [if_neg htruthy, if_neg htruthy]
      cases elseBranch with
      | none => exact .refl _
      | some branch => exact h.execute _ branch
  | «while» condition body => exact h.loop p condition body
  | function name params body => exact .refl _
  | «return» keyword value =>
    cases value with
    | none => exact .refl _
    | some value => exact (h.evaluate _ value).bind fun _ => .refl _

theorem Refined.executeAll_succ (h : Refined reading table n m) (i : Nat) (ss : List Stmt) :
    Refines (Traced.executeAll reading table (n + 1) p i ss)
      (Traced.executeAll reading table (m + 1) p i ss) := by
  cases ss with
  | nil => exact .refl _
  | cons s ss =>
    refine (h.execute _ s).bind fun c => ?_
    cases c with
    | normal => exact h.executeAll p (i + 1) ss
    | returned v => exact .refl _

theorem Refined.loop_succ (h : Refined reading table n m) (condition : Expr) (body : Stmt) :
    Refines (Traced.loop reading table (n + 1) p condition body)
      (Traced.loop reading table (m + 1) p condition body) := by
  refine (h.evaluate _ condition).bind fun v => ?_
  by_cases htruthy : v.isTruthy
  · rw [if_pos htruthy, if_pos htruthy]
    refine (h.execute _ body).bind fun c => ?_
    cases c with
    | normal => exact h.loop p condition body
    | returned v => exact .refl _
  · rw [if_neg htruthy, if_neg htruthy]
    exact .refl _

/-- The induction is on the smaller bound. -/
theorem refined (reading : Nat → Except String Float) (table : Locals) (hle : n ≤ m) :
    Refined reading table n m := by
  induction n generalizing m with
  | zero =>
    exact ⟨fun _ _ => refines_outOfSteps _, fun _ _ _ => refines_outOfSteps _,
      fun _ _ _ _ => refines_outOfSteps _, fun _ _ => refines_outOfSteps _,
      fun _ _ _ => refines_outOfSteps _, fun _ _ _ => refines_outOfSteps _⟩
  | succ n ih =>
    cases m with
    | zero => omega
    | succ m =>
      have h := ih (Nat.le_of_succ_le_succ hle)
      exact ⟨fun _ => h.evaluate_succ, fun _ => h.evaluateAll_succ, fun _ => h.call_succ,
        fun _ => h.execute_succ, fun _ => h.executeAll_succ, fun _ => h.loop_succ⟩

theorem refines_executeProgram (reading : Nat → Except String Float) (table : Locals) (hle : n ≤ m)
    (p : Place) (i : Nat) (ss : List Stmt) :
    Refines (executeProgram reading table n p i ss) (executeProgram reading table m p i ss) := by
  induction ss generalizing i with
  | nil => exact .refl _
  | cons s ss ih => exact ((refined reading table hle).execute _ s).bind fun _ => ih (i + 1)

/-- A run that ends within a bound ends within a larger one, in the same way. -/
theorem Session.run_mono {t : Session} {source : String} {report : Report}
    (reading : Nat → Except String Float) (hle : n ≤ m)
    (h : t.run reading n source = some report) :
    t.run reading m source = some report := by
  by_cases hf : (LoxLang.Session.analyse source t.nextId).faults = []
  · rw [run_accepted reading _ hf] at h ⊢
    rw [← h, Session.execute, Session.execute, outcome, outcome,
      refines_executeProgram reading _ hle _ _ _ _ fun hexhausted => ?_]
    rw [Session.execute, outcome, hexhausted] at h
    cases h
  · rw [run_rejected reading _ hf] at h ⊢
    exact h

end LoxLang.Traced
