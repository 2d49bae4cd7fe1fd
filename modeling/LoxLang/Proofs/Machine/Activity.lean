import LoxLang.Machine.Evaluation
import LoxLang.Proofs.Machine.Steps

/-!
What a machine is doing.

An activity is one use of a function of the machine: an expression that is evaluated, a call, a
statement that is executed.  Its course says which parts it has, each an activity again from some
machine, and how it ends.  The machine does what the courses say (`run_succ`).  What holds of a
course is then shown part by part, and no longer by following the steps of the machine.
-/

namespace LoxLang

/-- A function of the machine, and what it is used on. -/
inductive Activity
  | evaluate (e : Expr)
  | evaluateAll (es : List Expr)
  | call (function : Callable) (paren : Token) (values : List Value)
  | execute (s : Stmt)
  | executeAll (ss : List Stmt)
  | loop (condition : Expr) (body : Stmt)

namespace Activity

def Result : Activity → Type
  | evaluate _ => Value
  | evaluateAll _ => List Value
  | call _ _ _ => Value
  | execute _ => Completion
  | executeAll _ => Completion
  | loop _ _ => Completion

def run (context : Context) (n : Nat) : (a : Activity) → Run a.Result
  | evaluate e => Run.evaluate context n e
  | evaluateAll es => Run.evaluateAll context n es
  | call function paren values => Run.call context n function paren values
  | execute s => Run.execute context n s
  | executeAll ss => Run.executeAll context n ss
  | loop condition body => Run.loop context n condition body

/-- What goes on inside a call of a program function is the execution of its body. -/
def isCall : Activity → Bool
  | call _ _ _ => true
  | _ => false

end Activity

/-! ## Courses -/

/-- How an activity goes: at once to an end, or with a part first.  A part is an activity from some
machine; when it is through, be it by a fault, the machine is changed by `leave`. -/
inductive Course (α : Type)
  | ends (o : Outcome Stop Machine α)
  | part (a : Activity) (m : Machine) (leave : Machine → Machine)
      (next : a.Result → Machine → Course α)

namespace Course

variable {α : Type}

/-- The outcome when each part goes as `run` says. -/
def carry (run : (a : Activity) → Run a.Result) : Course α → Outcome Stop Machine α
  | ends o => o
  | part a m leave next =>
    match run a m with
    | .ok v s => (next v (leave s)).carry run
    | .error e s => .error e (leave s)
    | .exhausted => .exhausted

/-- A part that changes no more than its activity does. -/
abbrev first (a : Activity) (m : Machine) (next : a.Result → Machine → Course α) : Course α :=
  part a m id next

end Course

namespace Activity

open Course

/-- The course of each activity, from a machine. -/
def course (context : Context) : (a : Activity) → Machine → Course a.Result
  | evaluate e, m =>
    match e with
    | .constant value => ends (.ok (.ofConstant value) m)
    | .grouping inner => first (evaluate inner) m fun v m => ends (.ok v m)
    | .unary operator operand =>
      first (evaluate operand) m fun v m => ends (Run.applyUnary operator v m)
    | .binary left operator right =>
      first (evaluate left) m fun a m =>
        first (evaluate right) m fun b m => ends (Run.applyBinary operator a b m)
    | .logical left operator right =>
      first (evaluate left) m fun a m =>
        if Run.decides operator a then ends (.ok a m)
        else first (evaluate right) m fun b m => ends (.ok b m)
    | .read id name => ends (Run.readVariable context id name m)
    | .assign id name value =>
      first (evaluate value) m fun v m =>
        ends ((Run.assignVariable context id name v >>= fun _ => pure v) m)
    | .call callee paren arguments =>
      first (evaluate callee) m fun f m =>
        first (evaluateAll arguments) m fun (values : List Value) m =>
          match f with
          | .callable _ function =>
            if values.length = function.arity then
              first (call function paren values) m fun v m => ends (.ok v m)
            else ends (Run.fault (.wrongArgumentCount function.arity values.length) paren m)
          | _ => ends (Run.fault .notCallable paren m)
    | .function _ params body => ends (Run.closure none params body m)
  | evaluateAll es, m =>
    match es with
    | [] => ends (.ok [] m)
    | e :: rest =>
      first (evaluate e) m fun v m =>
        first (evaluateAll rest) m fun (vs : List Value) m => ends (.ok (v :: vs : List Value) m)
  | call function paren values, m =>
    match function with
    | .native name _ => ends (Run.callNative context name paren values m)
    | .closure _ params body frame =>
      let store := m.store.push frame ((params.map (·.lexeme)).zip values)
      if maxCallDepth ≤ m.depth then
        ends (Run.fault (.callsTooDeep maxCallDepth) paren { m with store })
      else
        part (executeAll body)
          { m with store, depth := m.depth + 1, active := m.store.nextFrame }
          (fun s => { s with depth := s.depth - 1, active := m.active })
          fun (c : Completion) m =>
            match c with
            | .returned v => ends (.ok v m)
            | .normal => ends (.ok .nil m)
  | execute s, m =>
    match s with
    | .expression value => first (evaluate value) m fun _ m => ends (.ok .normal m)
    | .print _ value =>
      first (evaluate value) m fun (v : Value) m =>
        ends (.ok .normal { m with lines := m.lines.push v.display })
    | .var name none => ends (.ok .normal (m.define name.lexeme .nil))
    | .var name (some value) =>
      first (evaluate value) m fun v m => ends (.ok .normal (m.define name.lexeme v))
    | .block body =>
      part (executeAll body)
        { m with store := m.store.push m.active [], active := m.store.nextFrame }
        (fun s => { s with active := m.active }) fun c m => ends (.ok c m)
    | .ifElse condition thenBranch elseBranch =>
      first (evaluate condition) m fun (v : Value) m =>
        if v.isTruthy then first (execute thenBranch) m fun c m => ends (.ok c m)
        else
          match elseBranch with
          | none => ends (.ok .normal m)
          | some branch => first (execute branch) m fun c m => ends (.ok c m)
    | .while condition body => first (loop condition body) m fun c m => ends (.ok c m)
    | .function name params body =>
      ends ((Run.closure (some name.lexeme) params body >>= fun f =>
        Run.define name.lexeme f >>= fun _ => pure .normal) m)
    | .return _ none => ends (.ok (.returned .nil) m)
    | .return _ (some value) => first (evaluate value) m fun v m => ends (.ok (.returned v) m)
  | executeAll ss, m =>
    match ss with
    | [] => ends (.ok .normal m)
    | s :: rest =>
      first (execute s) m fun (c : Completion) m =>
        match c with
        | .normal => first (executeAll rest) m fun c m => ends (.ok c m)
        | .returned v => ends (.ok (.returned v) m)
  | loop condition body, m =>
    first (evaluate condition) m fun (v : Value) m =>
      if v.isTruthy then
        first (execute body) m fun (c : Completion) m =>
          match c with
          | .normal => first (loop condition body) m fun c m => ends (.ok c m)
          | .returned v => ends (.ok (.returned v) m)
      else ends (.ok .normal m)

variable {context : Context} {n : Nat}

@[simp] theorem run_zero (a : Activity) (m : Machine) : a.run context 0 m = .exhausted := by
  cases a <;> rfl

/-- A part, entered and left by `x`, and what comes after it. -/
theorem carry_part {α : Type} (a : Activity) {m m' : Machine} {leave : Machine → Machine}
    {x : Run a.Result} {f : a.Result → Run α} {next : a.Result → Machine → Course α}
    (hx : x m = (a.run context n m').mapState leave)
    (h : ∀ v s, f v s = (next v s).carry (run context n)) :
    (x >>= f) m = (part a m' leave next).carry (run context n) := by
  rw [Action.bind_apply, carry, hx]
  cases a.run context n m' with
  | ok v s => exact h v (leave s)
  | error e s => rfl
  | exhausted => rfl

theorem carry_first {α : Type} (a : Activity) {m : Machine} {f : a.Result → Run α}
    {next : a.Result → Machine → Course α}
    (h : ∀ v s, f v s = (next v s).carry (run context n)) :
    (a.run context n >>= f) m = (first a m next).carry (run context n) :=
  carry_part a (Outcome.mapState_id _).symm h

/-- A part with nothing after it. -/
theorem carry_last (a : Activity) {m m' : Machine} {leave : Machine → Machine} {x : Run a.Result}
    (hx : x m = (a.run context n m').mapState leave) :
    x m = (part a m' leave fun v s => ends (.ok v s)).carry (run context n) := by
  rw [carry, hx]
  cases a.run context n m' <;> rfl

theorem carry_only (a : Activity) {m : Machine} :
    a.run context n m = (first a m fun v s => ends (.ok v s)).carry (run context n) :=
  carry_last a (Outcome.mapState_id _).symm

theorem run_succ_evaluate (e : Expr) (m : Machine) :
    (evaluate e).run context (n + 1) m =
      ((evaluate e).course context m).carry (run context n) := by
  cases e with
  | constant value => rfl
  | grouping inner => exact carry_only (evaluate inner)
  | unary operator operand => exact carry_first (evaluate operand) fun _ _ => rfl
  | binary left operator right =>
    exact carry_first (evaluate left) fun _ _ => carry_first (evaluate right) fun _ _ => rfl
  | logical left operator right =>
    refine carry_first (evaluate left) fun a s => ?_
    by_cases hd : Run.decides operator a
    · simp only [if_pos hd]
      rfl
    · simp only [if_neg hd]
      exact carry_only (evaluate right)
  | read id name => rfl
  | assign id name value => exact carry_first (evaluate value) fun _ _ => rfl
  | call callee paren arguments =>
    refine carry_first (evaluate callee) fun f _ =>
      carry_first (evaluateAll arguments) fun (values : List Value) s => ?_
    cases f with
    | callable identity function =>
      by_cases hcount : values.length = function.arity
      · simp only [if_pos hcount]
        exact carry_only (call function paren values)
      · simp only [if_neg hcount]
        rfl
    | _ => rfl
  | function keyword params body => rfl

theorem run_succ_execute (s : Stmt) (m : Machine) :
    (execute s).run context (n + 1) m =
      ((execute s).course context m).carry (run context n) := by
  cases s with
  | expression value => exact carry_first (evaluate value) fun _ _ => rfl
  | print keyword value => exact carry_first (evaluate value) fun _ _ => rfl
  | var name initializer =>
    cases initializer with
    | none => rfl
    | some value => exact carry_first (evaluate value) fun _ _ => rfl
  | block body =>
    exact carry_last (executeAll body) (Run.inFrame_eq m.store.nextFrame _ _)
  | ifElse condition thenBranch elseBranch =>
    refine carry_first (evaluate condition) fun (v : Value) s => ?_
    by_cases htruthy : v.isTruthy
    · simp only [if_pos htruthy]
      exact carry_only (execute thenBranch)
    · simp only [if_neg htruthy]
      cases elseBranch with
      | none => rfl
      | some branch => exact carry_only (execute branch)
  | «while» condition body => exact carry_only (loop condition body)
  | function name params body => rfl
  | «return» keyword value =>
    cases value with
    | none => rfl
    | some value => exact carry_first (evaluate value) fun _ _ => rfl

/-- The machine does what the course says, each part within one step less. -/
theorem run_succ (a : Activity) (m : Machine) :
    a.run context (n + 1) m = (a.course context m).carry (run context n) := by
  cases a with
  | evaluate e => exact run_succ_evaluate e m
  | evaluateAll es =>
    cases es with
    | nil => rfl
    | cons e es =>
      exact carry_first (evaluate e) fun _ _ => carry_first (evaluateAll es) fun _ _ => rfl
  | call function paren values =>
    cases function with
    | native name arity => rfl
    | closure name params body frame =>
      let before : Machine :=
        { m with store := m.store.push frame ((params.map (·.lexeme)).zip values) }
      let x : Run Completion :=
        Run.inCall paren (Run.inFrame m.store.nextFrame (Run.executeAll context n body))
      let finish : Completion → Run Value
        | .returned v => pure v
        | .normal => pure .nil
      show (x >>= finish) before = _
      by_cases hdeep : maxCallDepth ≤ m.depth
      · have hx : x before = Run.fault (.callsTooDeep maxCallDepth) paren before :=
          (Run.inCall_eq paren _ before).trans (if_pos hdeep)
        rw [Action.bind_apply, hx]
        simp only [course, if_pos hdeep]
        rfl
      · have hx : x before = ((executeAll body).run context n
            { before with depth := m.depth + 1, active := m.store.nextFrame }).mapState
            fun s => { s with depth := s.depth - 1, active := m.active } := by
          refine ((Run.inCall_eq paren _ before).trans (if_neg hdeep)).trans ?_
          rw [Run.inFrame_eq]
          exact Outcome.mapState_mapState _ _ _
        simp only [course, if_neg hdeep]
        refine carry_part (executeAll body) hx fun c s => ?_
        cases c <;> rfl
  | execute s => exact run_succ_execute s m
  | executeAll ss =>
    cases ss with
    | nil => rfl
    | cons s ss =>
      refine carry_first (execute s) fun c _ => ?_
      cases c with
      | normal => exact carry_only (executeAll ss)
      | returned v => rfl
  | loop condition body =>
    refine carry_first (evaluate condition) fun (v : Value) s => ?_
    by_cases htruthy : v.isTruthy
    · simp only [if_pos htruthy]
      refine carry_first (execute body) fun c _ => ?_
      cases c with
      | normal => exact carry_only (loop condition body)
      | returned v => rfl
    · simp only [if_neg htruthy]
      rfl

end Activity

end LoxLang
