import LoxLang.Machine.Operators

/-!
Evaluation of expressions and execution of statements.

Operands and arguments are evaluated from left to right, and all arguments before the call is
checked.  `and` and `or` give one of their operands, and evaluate the right one only if the left
does not decide.  The body of a function runs in the frame of its parameters, which is enclosed by
the frame in which the function was created; every block runs in a new frame of its own.

The first argument of each function bounds the number of nested steps; with a greater bound a run
that came to an end ends in the same way.
-/

namespace LoxLang

namespace Run

variable (context : Context)

mutual

def evaluate : Nat → Expr → Run Value
  | 0, _ => Action.outOfSteps
  | n + 1, e =>
    match e with
    | .constant value => pure (.ofConstant value)
    | .grouping inner => evaluate n inner
    | .unary operator operand => do
      let v ← evaluate n operand
      applyUnary operator v
    | .binary left operator right => do
      let a ← evaluate n left
      let b ← evaluate n right
      applyBinary operator a b
    | .logical left operator right => do
      let a ← evaluate n left
      if decides operator a then pure a else evaluate n right
    | .read id name => readVariable context id name
    | .assign id name value => do
      let v ← evaluate n value
      assignVariable context id name v
      pure v
    | .call callee paren arguments => do
      let f ← evaluate n callee
      let values ← evaluateAll n arguments
      match f with
      | .callable _ function =>
        if values.length = function.arity then call n function paren values
        else fault (.wrongArgumentCount function.arity values.length) paren
      | _ => fault .notCallable paren
    | .function _ params body => closure none params body

def evaluateAll : Nat → List Expr → Run (List Value)
  | 0, _ => Action.outOfSteps
  | n + 1, es =>
    match es with
    | [] => pure []
    | e :: rest => do
      let v ← evaluate n e
      let vs ← evaluateAll n rest
      pure (v :: vs)

/-- Calls a function with values that have been evaluated; their number is not checked.  `paren` is
the closing parenthesis of the call. -/
def call : Nat → Callable → Token → List Value → Run Value
  | 0, _, _, _ => Action.outOfSteps
  | n + 1, function, paren, values =>
    match function with
    | .native name _ => callNative context name paren values
    | .closure _ params body frame => do
      let f ← newFrame frame ((params.map (·.lexeme)).zip values)
      match ← inCall paren (inFrame f (executeAll n body)) with
      | .returned v => pure v
      | .normal => pure .nil

def execute : Nat → Stmt → Run Completion
  | 0, _ => Action.outOfSteps
  | n + 1, s =>
    match s with
    | .expression value => do
      let _ ← evaluate n value
      pure .normal
    | .print _ value => do
      let v ← evaluate n value
      print v.display
      pure .normal
    | .var name initializer => do
      let v ← match initializer with
        | none => pure .nil
        | some value => evaluate n value
      define name.lexeme v
      pure .normal
    | .block body => do
      let f ← newInnerFrame
      inFrame f (executeAll n body)
    | .ifElse condition thenBranch elseBranch => do
      let v ← evaluate n condition
      if v.isTruthy then execute n thenBranch
      else
        match elseBranch with
        | none => pure .normal
        | some branch => execute n branch
    | .while condition body => loop n condition body
    | .function name params body => do
      let f ← closure (some name.lexeme) params body
      define name.lexeme f
      pure .normal
    | .return _ value =>
      match value with
      | none => pure (.returned .nil)
      | some value => do
        let v ← evaluate n value
        pure (.returned v)

/-- Executes statements in order, up to the first that does not end normally. -/
def executeAll : Nat → List Stmt → Run Completion
  | 0, _ => Action.outOfSteps
  | n + 1, ss =>
    match ss with
    | [] => pure .normal
    | s :: rest => do
      match ← execute n s with
      | .normal => executeAll n rest
      | .returned v => pure (.returned v)

/-- Executes `body` as long as the condition, evaluated before each turn, is true. -/
def loop : Nat → Expr → Stmt → Run Completion
  | 0, _, _ => Action.outOfSteps
  | n + 1, condition, body => do
    let v ← evaluate n condition
    if v.isTruthy then
      match ← execute n body with
      | .normal => loop n condition body
      | .returned v => pure (.returned v)
    else pure .normal

end

/-- Executes statements in a new frame enclosed by the active one. -/
def executeBlock (n : Nat) (body : List Stmt) : Run Completion := do
  let f ← newInnerFrame
  inFrame f (executeAll context n body)

/-- Executes the statements of a program one after the other.  A `return` ends its own statement
only. -/
def executeProgram (n : Nat) : List Stmt → Run Unit
  | [] => pure ()
  | s :: rest => do
    let _ ← execute context n s
    executeProgram n rest

end Run

end LoxLang
