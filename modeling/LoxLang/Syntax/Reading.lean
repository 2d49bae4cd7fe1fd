import LoxLang.Diagnostic
import LoxLang.Outcome
import LoxLang.Syntax
import LoxLang.Syntax.Cursor

/-!
Reading a program from its tokens.

An expression is read with a binding power: first what starts it, then every continuation that
binds more tightly than that power.  Operators of one power group to the left, since their right
side is read with their own power; assignment groups to the right, since its value is read with
none.  A fault ends the declaration in which it lies: it is recorded, the cursor moves on to the
next statement boundary, and reading goes on from there.  Faults that leave the tree intact (too
many arguments or parameters, an assignment to something else than a variable) are recorded in
passing.

Each step either reads a token or follows one of a few that do, so a number of steps linear in the
number of tokens suffices; `Reading.budget` is such a number.
-/

namespace LoxLang

/-- Where reading has got to: the cursor, the faults found so far (the latest first), and the next
node number. -/
structure Reading where
  cursor : Cursor
  faults : List TokenError
  nextId : NodeId

abbrev Read (α : Type) := Action TokenError Reading α

/-- The most arguments or parameters in one list. -/
def maxArity : Nat := 255

namespace Reading

def start (tokens : List Token) (nextId : NodeId) : Reading := ⟨.ofTokens tokens, [], nextId⟩

/-- Steps that suffice to read what is left. -/
def budget (r : Reading) : Nat := 16 * (r.cursor.upcoming.length + 2)

end Reading

namespace Read

/-! ## Single steps -/

def current : Read Token := fun r => .ok r.cursor.current r

def kind : Read Kind := fun r => .ok r.cursor.kind r

def nextKind : Read Kind := fun r => .ok r.cursor.nextKind r

def check (k : Kind) : Read Bool := fun r => .ok (r.cursor.kind = k) r

def atEnd : Read Bool := fun r => .ok r.cursor.atEnd r

/-- Moves on and gives the token just passed. -/
def advance : Read Token := fun r =>
  let next := r.cursor.advance
  .ok next.previous { r with cursor := next }

/-- Records a fault without giving up. -/
def report (e : TokenError) : Read Unit := fun r => .ok () { r with faults := e :: r.faults }

/-- Records a fault at the current token without giving up. -/
def reportHere (cause : Cause) : Read Unit := do
  report ⟨← current, cause⟩

def expected (expectation : String) : Read TokenError := do
  return .expected (← current) expectation

/-- Passes a token of the given kind, or fails at the current token. -/
def expect (k : Kind) (expectation : String) : Read Token := do
  if ← check k then advance else Action.fail (← expected expectation)

/-- Reads `x` behind a token of kind `k`, if the current one is of that kind. -/
def behind? {α : Type} (k : Kind) (x : Read α) : Read (Option α) := do
  if ← check k then
    let _ ← advance
    return some (← x)
  else return none

/-- Reads `x`, unless the current token is of kind `k`; that token is not passed. -/
def before? {α : Type} (k : Kind) (x : Read α) : Read (Option α) := do
  if ← check k then return none else return some (← x)

/-- Records that a list has become too long, when `count` of its items have been read already. -/
def reportExcess (count : Nat) (cause : Cause) : Read Unit := do
  if maxArity ≤ count then reportHere cause else return ()

def freshId : Read NodeId := fun r => .ok r.nextId { r with nextId := r.nextId + 1 }

def synchronize : Read Unit := fun r => .ok () { r with cursor := r.cursor.synchronize }

/-! ## Constants -/

/-- The string without the quotes around it. -/
def unquote (lexeme : String) : String :=
  let isQuote := fun c : Char => c == '"'
  String.ofList ((lexeme.toList.dropWhile isQuote).reverse.dropWhile isQuote).reverse

/-- The number of a number token, read from the lexeme when there is no literal. -/
def numberOf (t : Token) : Float :=
  match t.literal with
  | some (.number x) => x
  | _ => (Number.ofText? t.lexeme).getD 0

/-- The string of a string token, taken from the lexeme when there is no literal. -/
def stringOf (t : Token) : String :=
  match t.literal with
  | some (.string s) => s
  | _ => unquote t.lexeme

/-- `for` clauses and a body as a loop with a condition only: the increment follows the body in a
block, a missing condition is `true`, and an initializer opens a block around the loop. -/
def loopOf (initializer : Option Stmt) (condition increment : Option Expr) (body : Stmt) : Stmt :=
  let turn :=
    match increment with
    | none => body
    | some e => .block [body, .expression e]
  let loop := Stmt.while (condition.getD (.constant (.bool true))) turn
  match initializer with
  | none => loop
  | some s => .block [s, loop]

/-- The parameters of a list that is not empty, when `count` have been read already. -/
def parameters : Nat → Nat → Read (List Token)
  | 0, _ => Action.outOfSteps
  | n + 1, count => do
    reportExcess count .tooManyParameters
    let name ← expect .identifier "Expect parameter name"
    return name :: (← behind? .comma (parameters n (count + 1))).getD []

/-! ## Expressions, statements and declarations -/

mutual

/-- An expression whose operators bind more tightly than `power`. -/
def expr : Nat → Power → Read Expr
  | 0, _ => Action.outOfSteps
  | n + 1, power => do
    let left ← operand n
    continuations n power left

/-- The continuations of `left` that bind more tightly than `power`. -/
def continuations : Nat → Power → Expr → Read Expr
  | 0, _, _ => Action.outOfSteps
  | n + 1, power, left => do
    let k ← kind
    if power.level < k.power.level then
      let left ← continuation n k left
      continuations n power left
    else return left

/-- What starts an expression. -/
def operand : Nat → Read Expr
  | 0 => Action.outOfSteps
  | n + 1 => do
    match ← kind with
    | .number => return .constant (.number (numberOf (← advance)))
    | .string => return .constant (.string (stringOf (← advance)))
    | .trueKw =>
      let _ ← advance
      return .constant (.bool true)
    | .falseKw =>
      let _ ← advance
      return .constant (.bool false)
    | .nilKw =>
      let _ ← advance
      return .constant .nil
    | .identifier =>
      let name ← advance
      return .read (← freshId) name
    | .not | .dash =>
      let operator ← advance
      return .unary operator (← expr n .unary)
    | .openParen =>
      let _ ← advance
      let inner ← expr n .none
      let _ ← expect .closeParen "Expect ')' after expression"
      return .grouping inner
    | .funKw =>
      let keyword ← advance
      let (params, body) ← functionRest n
      return .function keyword params body
    | _ => Action.fail (← expected "Expect expression")

/-- What follows `left` at a token of kind `k`: an assignment, a call, or an operator with its right
side. -/
def continuation : Nat → Kind → Expr → Read Expr
  | 0, _, _ => Action.outOfSteps
  | n + 1, k, left => do
    let operator ← advance
    match k with
    | .assignment =>
      let value ← expr n .none
      match left with
      | .read _ name => return .assign (← freshId) name value
      | other =>
        report ⟨operator, .invalidAssignmentTarget⟩
        return other
    | .openParen =>
      let values ← before? .closeParen (arguments n 0)
      let paren ← expect .closeParen "Expect ')' after arguments"
      return .call left paren (values.getD [])
    | .orKw | .andKw => return .logical left operator (← expr n k.power)
    | _ => return .binary left operator (← expr n k.power)

/-- The arguments of a list that is not empty, when `count` have been read already. -/
def arguments : Nat → Nat → Read (List Expr)
  | 0, _ => Action.outOfSteps
  | n + 1, count => do
    reportExcess count .tooManyArguments
    let value ← expr n .none
    return value :: (← behind? .comma (arguments n (count + 1))).getD []

/-- The parameters and the body of a function. -/
def functionRest : Nat → Read (List Token × List Stmt)
  | 0 => Action.outOfSteps
  | n + 1 => do
    let _ ← expect .openParen "Expect '(' after function name"
    let params ← before? .closeParen (parameters n 0)
    let _ ← expect .closeParen "Expect ')' after parameters"
    let _ ← expect .openCurly "Expect '\x7b' before function body"
    return (params.getD [], ← blockRest n)

/-- The statements of a block up to its closing brace. -/
def blockRest : Nat → Read (List Stmt)
  | 0 => Action.outOfSteps
  | n + 1 => do
    if (← check .closeCurly) || (← atEnd) then
      let _ ← expect .closeCurly "Expect '\x7d' after block"
      return []
    else
      let first ← declaration n
      return first.toList ++ (← blockRest n)

/-- A declaration or a statement.  A fault in it is recorded, the cursor moves on to the next
statement boundary, and there is no tree. -/
def declaration : Nat → Read (Option Stmt)
  | 0 => Action.outOfSteps
  | n + 1 => do
    match ← Action.attempt (unguarded n) with
    | .ok s => return some s
    | .error e =>
      report e
      synchronize
      return none

/-- A declaration or a statement that fails with its fault. -/
def unguarded : Nat → Read Stmt
  | 0 => Action.outOfSteps
  | n + 1 => do
    match ← kind with
    | .varKw => varDeclaration n
    | .funKw =>
      if (← nextKind) = .identifier then
        let _ ← advance
        let name ← expect .identifier "Expect function name"
        let (params, body) ← functionRest n
        return .function name params body
      else expressionStatement n
    | _ => statement n

def varDeclaration : Nat → Read Stmt
  | 0 => Action.outOfSteps
  | n + 1 => do
    let _ ← advance
    let name ← expect .identifier "Expect variable name"
    let initializer ← behind? .assignment (expr n .none)
    let _ ← expect .semicolon "Expect ';' after variable declaration"
    return .var name initializer

def expressionStatement : Nat → Read Stmt
  | 0 => Action.outOfSteps
  | n + 1 => do
    let value ← expr n .none
    let _ ← expect .semicolon "Expect ';' after expression"
    return .expression value

def statement : Nat → Read Stmt
  | 0 => Action.outOfSteps
  | n + 1 => do
    match ← kind with
    | .printKw =>
      let keyword ← advance
      let value ← expr n .none
      let _ ← expect .semicolon "Expect ';' after value"
      return .print keyword value
    | .openCurly =>
      let _ ← advance
      return .block (← blockRest n)
    | .ifKw =>
      let _ ← advance
      let _ ← expect .openParen "Expect '(' after 'if'"
      let condition ← expr n .none
      let _ ← expect .closeParen "Expect ')' after if condition"
      let thenBranch ← statement n
      return .ifElse condition thenBranch (← behind? .elseKw (statement n))
    | .whileKw =>
      let _ ← advance
      let _ ← expect .openParen "Expect '(' after 'while'"
      let condition ← expr n .none
      let _ ← expect .closeParen "Expect ')' after condition"
      return .while condition (← statement n)
    | .forKw => forStatement n
    | .returnKw =>
      let keyword ← advance
      let value ← before? .semicolon (expr n .none)
      let _ ← expect .semicolon "Expect ';' after return value"
      return .return keyword value
    | _ => expressionStatement n

/-- The first clause of a `for`, with the semicolon that ends it. -/
def initializer : Nat → Read (Option Stmt)
  | 0 => Action.outOfSteps
  | n + 1 => do
    match ← kind with
    | .semicolon =>
      let _ ← advance
      return none
    | .varKw => return some (← varDeclaration n)
    | _ => return some (← expressionStatement n)

def forStatement : Nat → Read Stmt
  | 0 => Action.outOfSteps
  | n + 1 => do
    let _ ← advance
    let _ ← expect .openParen "Expect '(' after 'for'"
    let initializer ← initializer n
    let condition ← before? .semicolon (expr n .none)
    let _ ← expect .semicolon "Expect ';' after loop condition"
    let increment ← before? .closeParen (expr n .none)
    let _ ← expect .closeParen "Expect ')' after for clauses"
    return loopOf initializer condition increment (← statement n)

end

/-- The declarations up to the end of the tokens. -/
def declarations : Nat → Read (List Stmt)
  | 0 => Action.outOfSteps
  | n + 1 => do
    if ← atEnd then return []
    else
      let first ← declaration n
      return first.toList ++ (← declarations n)

/-- A reading with as many steps as suffice for what is left. -/
def withBudget {α : Type} (x : Nat → Read α) : Read α := fun r => x r.budget r

end Read

/-- A program that has been read: the statements without fault, the faults in order, and the next
free node number. -/
structure Program where
  statements : List Stmt
  faults : List TokenError
  nextId : NodeId

/-- The program that the tokens make up; its nodes are numbered from `nextId` on. -/
def Program.ofTokens (tokens : List Token) (nextId : NodeId) : Program :=
  match Read.withBudget Read.declarations (.start tokens nextId) with
  | .ok statements r => ⟨statements, r.faults.reverse, r.nextId⟩
  | .error e r => ⟨[], (e :: r.faults).reverse, r.nextId⟩
  | .exhausted => ⟨[], [], nextId⟩

end LoxLang
