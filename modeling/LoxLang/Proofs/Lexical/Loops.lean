import LoxLang.Proofs.Lexical.Bounds
import LoxLang.Proofs.Lexical.Entering
import LoxLang.Proofs.Machine.Steps
import LoxLang.Proofs.Syntax.Starts
import LoxLang.Proofs.Syntax.Proper

/-!
Loops with clauses.

A `for` statement is read as a loop with a condition only, with blocks around the loop and around
its body.  Here it is executed as it stands: the initializer once, in a scope of its own, and then
turn after turn in the same surroundings.  Both go the same way (`ForLoop.run_of_execute`,
`ForLoop.execute_of_run`), up to whether the surroundings that functions keep have been entered: the
block around the body enters them, and declares nothing there.
-/

namespace LoxLang

/-- The clauses and the body of a `for` statement.  The body is not a declaration. -/
structure ForLoop where
  initializer : Option Stmt
  condition : Option Expr
  increment : Option Expr
  body : Stmt
  plain : body.Plain

namespace ForLoop

/-- The statement as which it is read. -/
def desugared (l : ForLoop) : Stmt := Read.loopOf l.initializer l.condition l.increment l.body

section

variable {fits : Nat → Prop} {ts : List Token}

open Grammar

/-- Whatever starts with `for` is read as such a statement. -/
theorem exists_desugared {dangling : Bool} {s : Stmt} (h : Statement fits dangling ts s)
    (hfor : firstKind ts = .forKw) : ∃ l : ForLoop, s = l.desugared := by
  cases h with
  | «for» _ _ _ _ _ _ _ hbody =>
    exact ⟨⟨_, _, _, _, (statement_proper hbody).2⟩, (loopOf_eq _ _ _ _).symm⟩
  | expression he => exact absurd hfor (he.starts.firstKind_ne rfl)
  | block hb =>
    cases hb with
    | mk ho =>
      rw [firstKind_cons, ho] at hfor
      cases hfor
  | print hk | «return» hk | ifThen hk | ifElse hk | «while» hk =>
    rw [firstKind_cons, hk] at hfor
    cases hfor

theorem exists_desugared_cons {ss : List Stmt} (h : Declarations fits ts ss)
    (hfor : firstKind ts = .forKw) : ∃ (l : ForLoop) (rest : _), ss = l.desugared :: rest := by
  cases h with
  | nil => cases hfor
  | cons hd _ =>
    rw [firstKind_append _ hd.ne_nil] at hfor
    cases hd with
    | function hk =>
      rw [firstKind_cons, hk] at hfor
      cases hfor
    | var hv =>
      rw [hv.starts] at hfor
      cases hfor
    | statement hs =>
      obtain ⟨l, rfl⟩ := exists_desugared hs hfor
      exact ⟨l, _, rfl⟩

end

open Lexical

/-! ## Execution as it stands -/

variable (reading : Nat → Except String Float) (l : ForLoop)

/-- The condition.  One that is missing is true. -/
def test (n : Nat) (env : Surroundings) : Lexical.Run (Value Surroundings) :=
  match l.condition with
  | none => pure (.bool true)
  | some e => evaluate reading n env e

/-- The body once, and the increment once behind it if it does not return. -/
def turn (n : Nat) (env : Surroundings) : Lexical.Run (Completion Surroundings) := do
  match ← execute reading n env l.body with
  | .normal =>
    match l.increment with
    | none => pure .normal
    | some e => do
      let _ ← evaluate reading n env e
      pure .normal
  | .returned v => pure (.returned v)

/-- Turn after turn while the condition holds. -/
def turns : Nat → Surroundings → Lexical.Run (Completion Surroundings)
  | 0, _ => Action.outOfSteps
  | n + 1, env => do
    let v ← l.test reading n env
    if v.isTruthy then
      match ← l.turn reading n env with
      | .normal => turns n env
      | .returned v => pure (.returned v)
    else pure .normal

/-- The whole loop.  A variable that the initializer declares gets its cell here, and all turns share
it. -/
def run (n : Nat) (env : Surroundings) : Lexical.Run (Completion Surroundings) :=
  match l.initializer with
  | none => l.turns reading n env
  | some s => do
    let inside ← declareIn env.enter s
    match ← execute reading n inside s with
    | .normal => l.turns reading n inside
    | .returned v => pure (.returned v)

variable {reading l} {n : Nat} {env : Surroundings}

/-! ## The parts of the statement that is read -/

/-- The condition of the statement that is read. -/
def wholeCondition (l : ForLoop) : Expr := l.condition.getD (.constant (.bool true))

/-- The body of the statement that is read. -/
def wholeBody (l : ForLoop) : Stmt :=
  match l.increment with
  | none => l.body
  | some e => .block [l.body, .expression e]

theorem desugared_eq (l : ForLoop) :
    l.desugared =
      match l.initializer with
      | none => .while l.wholeCondition l.wholeBody
      | some s => .block [s, .while l.wholeCondition l.wholeBody] := rfl

theorem declareIn_of_plain {s : Stmt} (h : s.Plain) (env : Surroundings) :
    declareIn env s = pure env := by
  cases s with
  | var name initializer => exact h.elim
  | function name params body => exact h.elim
  | _ => rfl

/-- Handing on a completion changes nothing. -/
theorem bind_completion {x : Lexical.Run (Completion Surroundings)} :
    (x >>= fun
      | .normal => pure .normal
      | .returned v => pure (.returned v)) = x := by
  funext r
  rw [Action.bind_apply]
  cases x r with
  | ok c t => cases c <;> rfl
  | error e t => rfl
  | exhausted => rfl

theorem executeAll_single {s : Stmt} (h : s.Plain) :
    executeAll reading (n + 2) env [s] = execute reading (n + 1) env s := by
  show (declareIn env s >>= fun inside => execute reading (n + 1) inside s >>= _) = _
  rw [declareIn_of_plain h]
  exact bind_completion

/-- The block of body and increment, in surroundings that have been entered. -/
theorem execute_wholeBody (he : env.enter = env) {e : Expr} (hincrement : l.increment = some e) :
    execute reading (n + 4) env l.wholeBody = execute reading (n + 2) env l.body >>= fun
      | .normal => evaluate reading n env e >>= fun _ => pure .normal
      | .returned v => pure (.returned v) := by
  have hbody : l.wholeBody = .block [l.body, .expression e] := by rw [wholeBody, hincrement]
  have hlast : executeAll reading (n + 2) env [.expression e] =
      evaluate reading n env e >>= fun _ => pure .normal := executeAll_single trivial
  rw [hbody, ← hlast]
  -- Neither of the two statements of the block declares anything in it.
  show executeAll reading (n + 3) env.enter [l.body, .expression e] = _
  rw [he]
  show (declareIn env l.body >>= fun inside => execute reading (n + 2) inside l.body >>= _) = _
  rw [declareIn_of_plain l.plain]
  rfl

/-! ## Bounds

The block around body and increment and the constant for a missing condition take nested steps of
their own.  So a bound that is enough on one side is enough on the other side if it is a little
greater, by as much in all turns. -/

theorem test_of_evaluate :
    Refines (evaluate reading n env l.wholeCondition) (l.test reading (n + 2) env) := by
  rw [wholeCondition, test]
  cases l.condition with
  | none =>
    cases n with
    | zero => exact refines_outOfSteps _
    | succ n => exact .refl _
  | some e => exact (refined reading (Nat.le_add_right n 2)).evaluate env e

theorem evaluate_of_test :
    Refines (l.test reading n env) (evaluate reading (n + 4) env l.wholeCondition) := by
  rw [wholeCondition, test]
  cases l.condition with
  | none => exact .refl _
  | some e => exact (refined reading (Nat.le_add_right n 4)).evaluate env e

theorem turn_of_execute (he : env.enter = env) :
    Refines (execute reading n env l.wholeBody) (l.turn reading (n + 2) env) := by
  cases hincrement : l.increment with
  | none =>
    have hbody : l.wholeBody = l.body := by rw [wholeBody, hincrement]
    rw [hbody, turn, hincrement, bind_completion]
    exact (refined reading (Nat.le_add_right n 2)).execute env l.body
  | some e =>
    refine ((refined reading (Nat.le_add_right n 4)).execute env l.wholeBody).trans ?_
    rw [execute_wholeBody he hincrement, turn, hincrement]
    refine (Refines.refl _).bind fun c => ?_
    cases c with
    | normal =>
      exact ((refined reading (Nat.le_add_right n 2)).evaluate env e).bind fun _ => .refl _
    | returned v => exact .refl _

theorem execute_of_turn (he : env.enter = env) :
    Refines (l.turn reading n env) (execute reading (n + 4) env l.wholeBody) := by
  cases hincrement : l.increment with
  | none =>
    have hbody : l.wholeBody = l.body := by rw [wholeBody, hincrement]
    rw [hbody, turn, hincrement, bind_completion]
    exact (refined reading (Nat.le_add_right n 4)).execute env l.body
  | some e =>
    rw [execute_wholeBody he hincrement, turn, hincrement]
    refine ((refined reading (Nat.le_add_right n 2)).execute env l.body).bind fun c => ?_
    exact .refl _

/-- The loop in the statement that is read, and the turns, in surroundings that have been entered. -/
theorem turns_of_loop (he : env.enter = env) :
    Refines (loop reading n env l.wholeCondition l.wholeBody) (l.turns reading (n + 2) env) := by
  induction n with
  | zero => exact refines_outOfSteps _
  | succ n ih =>
    rw [loop, turns]
    refine test_of_evaluate.bind fun v => ?_
    by_cases htruthy : v.isTruthy
    · rw [if_pos htruthy, if_pos htruthy]
      refine (turn_of_execute he).bind fun c => ?_
      cases c with
      | normal => exact ih
      | returned v => exact .refl _
    · rw [if_neg htruthy, if_neg htruthy]
      exact .refl _

theorem loop_of_turns (he : env.enter = env) :
    Refines (l.turns reading n env) (loop reading (n + 4) env l.wholeCondition l.wholeBody) := by
  induction n with
  | zero => exact refines_outOfSteps _
  | succ n ih =>
    rw [loop, turns]
    refine evaluate_of_test.bind fun v => ?_
    by_cases htruthy : v.isTruthy
    · rw [if_pos htruthy, if_pos htruthy]
      refine (execute_of_turn he).bind fun c => ?_
      cases c with
      | normal => exact ih
      | returned v => exact .refl _
    · rw [if_neg htruthy, if_neg htruthy]
      exact .refl _

/-- The initializer is executed in a block of its own. -/
theorem execute_initializer {s : Stmt} (hinitializer : l.initializer = some s) :
    execute reading (n + 4) env l.desugared = declareIn env.enter s >>= fun inside =>
      execute reading (n + 2) inside s >>= fun
        | .normal => loop reading n inside l.wholeCondition l.wholeBody
        | .returned v => pure (.returned v) := by
  have hlast : ∀ inside, executeAll reading (n + 2) inside
      [.while l.wholeCondition l.wholeBody] = loop reading n inside l.wholeCondition l.wholeBody :=
    fun inside => executeAll_single trivial
  have hdesugared : l.desugared = .block [s, .while l.wholeCondition l.wholeBody] := by
    rw [desugared_eq, hinitializer]
  simp only [hdesugared, ← hlast]
  rfl

/-- Whatever a statement declares, inside a block it is followed by surroundings of a block. -/
theorem refines_declareIn {s : Stmt} {f g : Surroundings → Lexical.Run (Completion Surroundings)}
    (h : ∀ inside, inside.enter = inside → Refines (f inside) (g inside)) :
    Refines (declareIn env.enter s >>= f) (declareIn env.enter s >>= g) := by
  obtain ⟨names, hnames⟩ := env.enter_eq_within
  intro r hne
  obtain ⟨⟨inside, hinside⟩, r', hd⟩ : ∃ inside : { env : Surroundings // env.enter = env },
      ∃ r', declareIn env.enter s r = .ok inside.1 r' := by
    rw [hnames]
    cases s with
    | var name initializer => exact ⟨⟨.within _, rfl⟩, _, rfl⟩
    | function name params body => exact ⟨⟨.within _, rfl⟩, _, rfl⟩
    | _ => exact ⟨⟨.within names, rfl⟩, r, rfl⟩
  rw [Action.bind_ok hd] at hne
  rw [Action.bind_ok hd, Action.bind_ok hd]
  exact h inside hinside r' hne

/-- The statement that is read, and the loop as it stands, in surroundings that have been entered. -/
theorem refines_run (he : env.enter = env) :
    Refines (execute reading n env l.desugared) (l.run reading (n + 2) env) := by
  cases hinitializer : l.initializer with
  | none =>
    have hdesugared : l.desugared = .while l.wholeCondition l.wholeBody := by
      rw [desugared_eq, hinitializer]
    refine ((refined reading (Nat.le_add_right n 1)).execute env l.desugared).trans ?_
    rw [hdesugared, run, hinitializer]
    exact turns_of_loop he
  | some s =>
    refine ((refined reading (Nat.le_add_right n 4)).execute env l.desugared).trans ?_
    rw [execute_initializer hinitializer, run, hinitializer]
    refine refines_declareIn fun inside hinside => ?_
    refine (Refines.refl _).bind fun c => ?_
    cases c with
    | normal => exact turns_of_loop hinside
    | returned v => exact .refl _

theorem refines_execute (he : env.enter = env) :
    Refines (l.run reading n env) (execute reading (n + 8) env l.desugared) := by
  cases hinitializer : l.initializer with
  | none =>
    have hdesugared : l.desugared = .while l.wholeCondition l.wholeBody := by
      rw [desugared_eq, hinitializer]
    rw [hdesugared, run, hinitializer]
    refine (loop_of_turns he).trans ?_
    exact (refined reading (Nat.le_add_right (n + 4) 3)).loop env l.wholeCondition l.wholeBody
  | some s =>
    rw [execute_initializer hinitializer, run, hinitializer]
    refine refines_declareIn fun inside hinside => ?_
    refine ((refined reading (Nat.le_add_right n 6)).execute inside s).bind fun c => ?_
    cases c with
    | normal => exact loop_of_turns hinside
    | returned v => exact .refl _

/-! ## Surroundings that have not been entered -/

theorem enters_turn (l : ForLoop) :
    Enters (l.turn reading n env) (l.turn reading n env.enter) EnteredCompletion := by
  rw [turn, turn]
  refine ((entering reading n).execute env l.body).bind ?_
  rintro c _ rfl
  cases c with
  | returned v => exact .pure rfl
  | normal =>
    cases l.increment with
    | none => exact .pure rfl
    | some e => exact ((entering reading n).evaluate env e).bind fun _ _ _ => .pure rfl

theorem enters_turns (l : ForLoop) :
    Enters (l.turns reading n env) (l.turns reading n env.enter) EnteredCompletion := by
  induction n with
  | zero => exact enters_outOfSteps
  | succ n ih =>
    have htest : Enters (l.test reading n env) (l.test reading n env.enter) EnteredValue := by
      rw [test, test]
      cases l.condition with
      | none => exact .pure rfl
      | some e => exact (entering reading n).evaluate env e
    rw [turns, turns]
    refine htest.bind ?_
    rintro v _ rfl
    rw [v.isTruthy_mapKept]
    cases v.isTruthy with
    | false => exact .pure rfl
    | true =>
      refine l.enters_turn.bind ?_
      rintro c _ rfl
      cases c with
      | normal => exact ih
      | returned v => exact .pure rfl

theorem enters_run (l : ForLoop) :
    Enters (l.run reading n env) (l.run reading n env.enter) EnteredCompletion := by
  rw [run, run]
  cases l.initializer with
  | none => exact l.enters_turns
  | some s =>
    obtain ⟨names, hnames⟩ := env.enter_eq_within
    dsimp only
    rw [env.enter_enter, hnames]
    refine (enters_declareIn names s).bind ?_
    rintro inside _ ⟨rfl, names', rfl⟩
    refine ((entering reading n).execute (.within names') s).bind ?_
    rintro c _ rfl
    cases c with
    | normal => exact l.enters_turns
    | returned v => exact .pure rfl

/-- In whatever surroundings, the statement that is read ends as the loop does as it stands. -/
theorem run_of_execute {r : Lexical.Machine}
    (h : execute reading n env l.desugared r ≠ .exhausted) :
    EndAlike (execute reading n env l.desugared r) (l.run reading (n + 2) env r) := by
  have hexecute := (entering reading n).execute env l.desugared
  refine hexecute.endAlike l.enters_run ?_
  refine (refines_run env.enter_enter r.entered fun he => h ?_).symm
  exact (hexecute r).exhausted_iff.2 he

theorem execute_of_run {r : Lexical.Machine} (h : l.run reading n env r ≠ .exhausted) :
    EndAlike (execute reading (n + 8) env l.desugared r) (l.run reading n env r) := by
  have hexecute := (entering reading (n + 8)).execute env l.desugared
  refine hexecute.endAlike l.enters_run ?_
  refine refines_execute env.enter_enter r.entered fun he => h ?_
  exact (l.enters_run r).exhausted_iff.2 he

end ForLoop

end LoxLang
