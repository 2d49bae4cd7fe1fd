import LoxLang.Proofs.Lexical.Functions
import LoxLang.Proofs.Scope.Ready

/-!
Evaluation with frames and distances, and evaluation with cells.

Bound for bound, the two evaluations of a part of a program simulate each other in any world whose
frames and surroundings correspond for the scopes in which that part was resolved.  The induction is
on the bound on the steps; each case is a chain of single steps.
-/

namespace LoxLang

namespace Lexical

theorem scopesIn_of_plain {s : Stmt} (h : s.Plain) (scopes : Scopes) : scopesIn scopes s = scopes := by
  cases s with
  | var name initializer => exact h.elim
  | function name params body => exact h.elim
  | _ => rfl

section

variable (table : Locals) (bound : NodeId)

inductive SameCompletion (w : World) : Completion → Completion Surroundings → Prop
  | normal : SameCompletion w .normal .normal
  | returned {v v'} : SameValue table bound w v v' → SameCompletion w (.returned v) (.returned v')

abbrev SameValues (w : World) : List Value → List (Value Surroundings) → Prop :=
  List.Forall₂ (SameValue table bound w)

/-- What `n` nested steps do, on frames and on cells. -/
structure Simulated (reading : Nat → Except String Float) (n : Nat) : Prop where
  evaluate : ∀ {w scopes f env e}, Corresponds w scopes f env →
    Settled table bound (e.findings scopes) → e.Proper →
    Simulates table bound w f none (Run.evaluate ⟨Host.timed reading, table⟩ n e)
      (evaluate reading n env e) (SameValue table bound)
  evaluateAll : ∀ {w scopes f env es}, Corresponds w scopes f env →
    Settled table bound (Expr.findingsAll scopes es) → Expr.ProperAll es →
    Simulates table bound w f none (Run.evaluateAll ⟨Host.timed reading, table⟩ n es)
      (evaluateAll reading n env es) (SameValues table bound)
  call : ∀ {w f function function' values values'} (paren : Token),
    SameCallable table bound w function function' → SameValues table bound w values values' →
    values.length = function.arity →
    Simulates table bound w f none (Run.call ⟨Host.timed reading, table⟩ n function paren values)
      (call reading n function' paren values') (SameValue table bound)
  execute : ∀ {w scopes f env s inFunction}, Corresponds w (scopesIn scopes s) f env →
    Settled table bound (s.findings inFunction scopes).1 → s.Proper →
    Simulates table bound w f none (Run.execute ⟨Host.timed reading, table⟩ n s)
      (execute reading n env s) (SameCompletion table bound)
  executeAll : ∀ {w scopes f env ss inFunction}, Corresponds w scopes f env → Exact w scopes f →
    Settled table bound (Stmt.findingsAll inFunction scopes ss).1 → Stmt.ProperAll ss →
    Simulates table bound w f (some f) (Run.executeAll ⟨Host.timed reading, table⟩ n ss)
      (executeAll reading n env ss) (SameCompletion table bound)
  loop : ∀ {w scopes f env condition body inFunction}, Corresponds w scopes f env →
    Settled table bound (condition.findings scopes) →
    Settled table bound (body.findings inFunction scopes).1 → condition.Proper → body.Proper →
    body.Plain →
    Simulates table bound w f none (Run.loop ⟨Host.timed reading, table⟩ n condition body)
      (loop reading n env condition body) (SameCompletion table bound)

end

variable {table : Locals} {bound : NodeId} {reading : Nat → Except String Float} {n : Nat}
  {w : World} {f : FrameId} {scopes : Scopes} {env : Surroundings}

/-! ## Expressions -/

theorem Simulated.callValue (h : Simulated table bound reading n) {v : Value}
    {v' : Value Surroundings} {values : List Value} {values' : List (Value Surroundings)}
    (paren : Token) (hv : SameValue table bound w v v')
    (hvs : SameValues table bound w values values') :
    Simulates table bound w f none
      (match v with
        | .callable _ function =>
          if values.length = function.arity then
            Run.call ⟨Host.timed reading, table⟩ n function paren values
          else Run.fault (.wrongArgumentCount function.arity values.length) paren
        | _ => Run.fault .notCallable paren)
      (match v' with
        | .callable _ function =>
          if values'.length = function.arity then Lexical.call reading n function paren values'
          else Run.fault (.wrongArgumentCount function.arity values'.length) paren
        | _ => Run.fault .notCallable paren)
      (SameValue table bound) := by
  cases hv with
  | nil => exact .fault _ _
  | bool b => exact .fault _ _
  | number x => exact .fault _ _
  | string s => exact .fault _ _
  | @callable identity function function' hc =>
    have hlength : values'.length = values.length := hvs.length_eq.symm
    have harity : function'.arity = function.arity := hc.arity_eq.symm
    show Simulates table bound w f none
      (if values.length = function.arity then
        Run.call ⟨Host.timed reading, table⟩ n function paren values
      else Run.fault (.wrongArgumentCount function.arity values.length) paren)
      (if values'.length = function'.arity then Lexical.call reading n function' paren values'
      else Run.fault (.wrongArgumentCount function'.arity values'.length) paren) _
    rw [hlength, harity]
    by_cases hcount : values.length = function.arity
    · rw [if_pos hcount, if_pos hcount]
      exact h.call paren hc hvs hcount
    · rw [if_neg hcount, if_neg hcount]
      exact .fault _ _

theorem Simulated.evaluate_succ (h : Simulated table bound reading n) {e : Expr}
    (hc : Corresponds w scopes f env) (hs : Settled table bound (e.findings scopes))
    (hp : e.Proper) :
    Simulates table bound w f none (Run.evaluate ⟨Host.timed reading, table⟩ (n + 1) e)
      (Lexical.evaluate reading (n + 1) env e) (SameValue table bound) := by
  cases e with
  | constant value => exact .pure (.ofConstant w value)
  | grouping inner => exact h.evaluate hc hs hp
  | unary operator operand =>
    refine .bind (h.evaluate hc hs hp) ?_
    intro w' v v' _ hv
    exact simulates_applyUnary operator hv
  | binary left operator right =>
    refine .bind (h.evaluate hc (Settled.left hs) hp.1) ?_
    intro w₁ a a' hw₁ ha
    refine .bind (h.evaluate (hc.grows hw₁) (Settled.right hs) hp.2) ?_
    intro w₂ b b' hw₂ hb
    exact simulates_applyBinary operator (ha.grows hw₂) hb
  | logical left operator right =>
    refine .bind (h.evaluate hc (Settled.left hs) hp.1) ?_
    intro w₁ a a' hw₁ ha
    rw [Run.decides_similar rfl ha.similar]
    cases Run.decides operator a' with
    | true => exact .pure ha
    | false => exact h.evaluate (hc.grows hw₁) (Settled.right hs) hp.2
  | read id name => exact simulates_read hc (Settled.right hs).reference
  | assign id name value =>
    refine .bind (h.evaluate hc (Settled.left hs) hp) ?_
    intro w₁ v v' hw₁ hv
    refine .bind (simulates_assign (hc.grows hw₁) (Settled.right hs).reference hv) ?_
    intro w₂ _ _ hw₂ _
    exact .pure (hv.grows hw₂)
  | call callee paren arguments =>
    refine .bind (h.evaluate hc (Settled.left hs) hp.1) ?_
    intro w₁ v v' hw₁ hv
    refine .bind (h.evaluateAll (hc.grows hw₁) (Settled.right hs) hp.2) ?_
    intro w₂ values values' hw₂ hvs
    exact h.callValue paren (hv.grows hw₂) hvs
  | function keyword params body => exact simulates_closure hc hs hp

theorem Simulated.evaluateAll_succ (h : Simulated table bound reading n) {es : List Expr}
    (hc : Corresponds w scopes f env) (hs : Settled table bound (Expr.findingsAll scopes es))
    (hp : Expr.ProperAll es) :
    Simulates table bound w f none (Run.evaluateAll ⟨Host.timed reading, table⟩ (n + 1) es)
      (Lexical.evaluateAll reading (n + 1) env es) (SameValues table bound) := by
  cases es with
  | nil => exact .pure .nil
  | cons e es =>
    refine .bind (h.evaluate hc (Settled.left hs) hp.1) ?_
    intro w₁ v v' hw₁ hv
    refine .bind (h.evaluateAll (hc.grows hw₁) (Settled.right hs) hp.2) ?_
    intro w₂ vs vs' hw₂ hvs
    exact .pure (.cons (hv.grows hw₂) hvs)

/-! ## Calls -/

theorem Simulated.call_succ (h : Simulated table bound reading n) {function : Callable}
    {function' : Callable Surroundings} {values : List Value}
    {values' : List (Value Surroundings)} (paren : Token)
    (hf : SameCallable table bound w function function')
    (hvs : SameValues table bound w values values') (hcount : values.length = function.arity) :
    Simulates table bound w f none
      (Run.call ⟨Host.timed reading, table⟩ (n + 1) function paren values)
      (Lexical.call reading (n + 1) function' paren values') (SameValue table bound) := by
  cases hf with
  | @native name arity => exact simulates_callNative reading name paren values
  | closure hc he hs hp =>
    -- The frame of the call is new, so its parameters fill none that was there before.
    refine .fresh (.bind (simulates_newFrame hc he (Settled.left hs) hvs hcount) ?_)
    rintro w₁ a inside hw₁ ⟨rfl, hc₁, he₁⟩
    refine .bind (.inCall paren (.inFrame (h.executeAll hc₁ he₁ (Settled.right hs) hp))) ?_
    intro w₂ c c' hw₂ hcompletion
    cases hcompletion with
    | normal => exact .pure .nil
    | returned hv => exact .pure hv

/-! ## Statements -/

theorem Simulated.execute_succ (h : Simulated table bound reading n) {s : Stmt} {inFunction : Bool}
    (hc : Corresponds w (scopesIn scopes s) f env)
    (hs : Settled table bound (s.findings inFunction scopes).1) (hp : s.Proper) :
    Simulates table bound w f none (Run.execute ⟨Host.timed reading, table⟩ (n + 1) s)
      (Lexical.execute reading (n + 1) env s) (SameCompletion table bound) := by
  cases s with
  | expression value =>
    refine .bind (h.evaluate hc hs hp) ?_
    intro w₁ v v' hw₁ hv
    exact .pure .normal
  | print keyword value =>
    refine .bind (h.evaluate hc hs hp) ?_
    intro w₁ v v' hw₁ hv
    rw [hv.display_eq]
    refine .bind (simulates_print _) ?_
    intro w₂ _ _ _ _
    exact .pure .normal
  | var name initializer =>
    have hdefine : ∀ {w₁ : World} {v : Value} {v' : Value Surroundings}, w.Grows none w₁ →
        SameValue table bound w₁ v v' →
        Simulates table bound w₁ f none (Run.define name.lexeme v >>= fun _ => Pure.pure .normal)
          (Lexical.define env name.lexeme v' >>= fun _ => Pure.pure .normal)
          (SameCompletion table bound) := by
      intro w₁ v v' hw₁ hv
      refine .bind (simulates_define (hc.grows hw₁) (declares_declare scopes name) hv) ?_
      intro w₂ _ _ _ _
      exact .pure .normal
    cases initializer with
    | none => exact hdefine (.refl none w) .nil
    | some value =>
      refine .bind (h.evaluate hc (Settled.right hs) hp) ?_
      intro w₁ v v' hw₁ hv
      exact hdefine hw₁ hv
  | block body =>
    refine .fresh (.bind (y := Pure.pure env.enter)
      (l := fun inside => Lexical.executeAll reading n inside body) (simulates_newInnerFrame hc) ?_)
    rintro w₁ a inside hw₁ ⟨rfl, hc₁, he₁⟩
    exact .inFrame (h.executeAll hc₁ he₁ hs hp)
  | ifElse condition thenBranch elseBranch =>
    obtain ⟨hpc, ⟨hpt, hplain⟩, hpe⟩ := hp
    have hscopes := thenBranch.scopes_of_plain hpt hplain inFunction scopes
    refine .bind (h.evaluate hc (Settled.left hs) hpc) ?_
    intro w₁ v v' hw₁ hv
    have hc₁ : Corresponds w₁ scopes f env := hc.grows hw₁
    rw [hv.isTruthy_eq]
    cases v'.isTruthy with
    | true =>
      rw [← scopesIn_of_plain hplain scopes] at hc₁
      exact h.execute hc₁ (Settled.left (Settled.right hs)) hpt
    | false =>
      cases elseBranch with
      | none => exact .pure .normal
      | some branch =>
        have helse : Settled table bound
            (branch.findings inFunction (thenBranch.findings inFunction scopes).2).1 :=
          Settled.right (Settled.right hs)
        rw [hscopes] at helse
        rw [← scopesIn_of_plain hpe.2 scopes] at hc₁
        exact h.execute hc₁ helse hpe.1
  | «while» condition body =>
    exact h.loop hc (Settled.left hs) (Settled.right hs) hp.1 hp.2.1 hp.2.2
  | function name params body =>
    refine .bind (simulates_closure hc (Settled.right hs) hp) ?_
    intro w₁ v v' hw₁ hv
    refine .bind (simulates_define (hc.grows hw₁) (declares_define_self scopes name) hv) ?_
    intro w₂ _ _ _ _
    exact .pure .normal
  | «return» keyword value =>
    cases value with
    | none => exact .pure (.returned .nil)
    | some value =>
      refine .bind (h.evaluate hc (Settled.right hs) hp) ?_
      intro w₁ v v' hw₁ hv
      exact .pure (.returned hv)

/-- The scopes behind a statement correspond as those in which it was executed do. -/
theorem corresponds_after {s : Stmt} {inFunction : Bool} (hp : s.Proper)
    (hc : Corresponds w (scopesIn scopes s) f env) (he : Exact w (scopesIn scopes s) f) :
    Corresponds w (s.findings inFunction scopes).2 f env ∧
      Exact w (s.findings inFunction scopes).2 f := by
  by_cases hplain : s.Plain
  · rw [scopesIn_of_plain hplain] at hc he
    rw [s.scopes_of_plain hp hplain]
    exact ⟨hc, he⟩
  · cases s with
    | var name initializer => exact ⟨hc.define, he.define⟩
    | function name params body => exact ⟨hc, he⟩
    | _ => exact absurd trivial hplain

theorem Simulated.executeAll_succ (h : Simulated table bound reading n) {ss : List Stmt}
    {inFunction : Bool} (hc : Corresponds w scopes f env) (he : Exact w scopes f)
    (hs : Settled table bound (Stmt.findingsAll inFunction scopes ss).1) (hp : Stmt.ProperAll ss) :
    Simulates table bound w f (some f)
      (Run.executeAll ⟨Host.timed reading, table⟩ (n + 1) ss)
      (Lexical.executeAll reading (n + 1) env ss) (SameCompletion table bound) := by
  cases ss with
  | nil => exact .pure .normal
  | cons s ss =>
    have hhere : Settled table bound (s.findings inFunction scopes).1 := Settled.left hs
    refine .bind (x := Pure.pure ())
      (k := fun _ => Run.executeAll ⟨Host.timed reading, table⟩ (n + 1) (s :: ss))
      (simulates_declareIn hc he hhere) ?_
    rintro w₁ _ inside hw₁ ⟨hc₁, he₁⟩
    refine .bind ((h.execute hc₁ hhere hp.1).exact hc₁ he₁) ?_
    rintro w₂ c c' hw₂ ⟨hcompletion, he₂⟩
    cases hcompletion with
    | returned hv => exact .pure (.returned hv)
    | normal =>
      obtain ⟨hc₂, he₂⟩ := corresponds_after hp.1 (hc₁.grows hw₂) he₂
      exact h.executeAll hc₂ he₂ (Settled.right hs) hp.2

theorem Simulated.loop_succ (h : Simulated table bound reading n) {condition : Expr} {body : Stmt}
    {inFunction : Bool} (hc : Corresponds w scopes f env)
    (hs : Settled table bound (condition.findings scopes))
    (hsb : Settled table bound (body.findings inFunction scopes).1) (hp : condition.Proper)
    (hpb : body.Proper) (hplain : body.Plain) :
    Simulates table bound w f none
      (Run.loop ⟨Host.timed reading, table⟩ (n + 1) condition body)
      (Lexical.loop reading (n + 1) env condition body) (SameCompletion table bound) := by
  refine .bind (h.evaluate hc hs hp) ?_
  intro w₁ v v' hw₁ hv
  rw [hv.isTruthy_eq]
  cases v'.isTruthy with
  | false => exact .pure .normal
  | true =>
    have hc₁ := hc.grows hw₁
    have hbody : Corresponds w₁ (scopesIn scopes body) f env := by
      rw [scopesIn_of_plain hplain]
      exact hc₁
    refine .bind (h.execute hbody hsb hpb) ?_
    intro w₂ c c' hw₂ hcompletion
    cases hcompletion with
    | returned hv => exact .pure (.returned hv)
    | normal => exact h.loop (hc₁.grows hw₂) hs hsb hp hpb hplain

/-! ## All together -/

theorem simulated (table : Locals) (bound : NodeId) (reading : Nat → Except String Float)
    (n : Nat) : Simulated table bound reading n := by
  induction n with
  | zero =>
    exact ⟨fun _ _ _ _ _ _ => trivial, fun _ _ _ _ _ _ => trivial, fun _ _ _ _ _ _ _ => trivial,
      fun _ _ _ _ _ _ => trivial, fun _ _ _ _ _ _ _ => trivial,
      fun _ _ _ _ _ _ _ _ _ => trivial⟩
  | succ n ih =>
    exact ⟨ih.evaluate_succ, ih.evaluateAll_succ, ih.call_succ, ih.execute_succ,
      ih.executeAll_succ, ih.loop_succ⟩

/-- The statements of a program, from the top level. -/
theorem simulates_executeProgram (reading : Nat → Except String Float) (n : Nat)
    {program : List Stmt} (hs : Settled table bound (findingsIn program))
    (hp : Stmt.ProperAll program) :
    Simulates table bound w Store.globalFrame none
      (Run.executeProgram ⟨Host.timed reading, table⟩ n program)
      (executeProgram reading n program) fun _ _ _ => True := by
  induction program generalizing w with
  | nil => exact .pure trivial
  | cons s ss ih =>
    have htop : scopesIn [] s = [] := by cases s <;> rfl
    have hrest : Settled table bound (Stmt.findingsAll false (s.findings false []).2 ss).1 :=
      Settled.right hs
    rw [s.scopes_top hp.1 false] at hrest
    have hc : Corresponds w (scopesIn [] s) Store.globalFrame .top := ⟨htop, rfl⟩
    refine .bind ((simulated table bound reading n).execute hc (Settled.left hs) hp.1) ?_
    intro w₁ _ _ _ _
    exact ih hrest hp.2

end Lexical

end LoxLang
