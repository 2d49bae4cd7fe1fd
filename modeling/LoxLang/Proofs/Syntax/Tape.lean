import LoxLang.Syntax.Reading

/-!
Reading by positions in a list of tokens.

A tape is the list of tokens with a position in it.  Here everything can go wrong that a cursor rules
out by its form: a token may be asked for where none is, or behind a closing one, and what is called for
a token may pass another token instead (`Mishap`).  What starts an expression and what continues one is
looked up in two tables, and whatever is found there passes the token for which it was looked up.
-/

namespace LoxLang

structure Tape where
  tokens : List Token
  position : Nat
  /-- The latest first. -/
  faults : List TokenError
  nextId : NodeId

/-- What can stop a tape. -/
inductive Mishap
  /-- No token is at the index, or a closing one stands before it. -/
  | noToken (index : Nat)
  /-- Something was called for a token of the kind and did not pass it. -/
  | strayed (kind : Kind)
  /-- An ordinary fault of the program. -/
  | fault (error : TokenError)

abbrev TapeRead (α : Type) := Action Mishap Tape α

/-! ## The tables -/

/-- What reads the start of an expression. -/
inductive Opening
  | primary | operator | grouping | function
  deriving DecidableEq

/-- What reads the continuation of one. -/
inductive Continuing
  | assignment | logical | binary | call
  deriving DecidableEq

def openings : List (Kind × Opening) :=
  [(.number, .primary), (.string, .primary), (.trueKw, .primary), (.falseKw, .primary),
    (.nilKw, .primary), (.identifier, .primary), (.not, .operator), (.dash, .operator),
    (.openParen, .grouping), (.funKw, .function)]

def continuings : List (Kind × Power × Continuing) :=
  [(.assignment, .assignment, .assignment), (.orKw, .logicalOr, .logical),
    (.andKw, .logicalAnd, .logical), (.equals, .equality, .binary),
    (.notEquals, .equality, .binary), (.less, .comparison, .binary),
    (.lessEquals, .comparison, .binary), (.greater, .comparison, .binary),
    (.greaterEquals, .comparison, .binary), (.plus, .additive, .binary),
    (.dash, .additive, .binary), (.star, .multiplicative, .binary),
    (.slash, .multiplicative, .binary), (.percent, .multiplicative, .binary),
    (.openParen, .call, .call)]

/-- How tightly the table binds a token to the expression before it. -/
def boundBy (k : Kind) : Power := ((continuings.lookup k).map Prod.fst).getD .none

theorem boundBy_eq (k : Kind) : boundBy k = k.power := by cases k <;> rfl

namespace Tape

/-- The tape at its first token. -/
def start (tokens : List Token) (nextId : NodeId) : Tape := ⟨closeTokens tokens, 0, [], nextId⟩

/-! ## Single steps -/

/-- The token at an index that does not lie behind a closing one. -/
def tokenAt (index : Nat) : TapeRead Token := fun t =>
  match t.tokens[index]? with
  | some token =>
    if (t.tokens.take index).any (·.kind = .eof) then .error (.noToken index) t else .ok token t
  | none => .error (.noToken index) t

def current : TapeRead Token := fun t => tokenAt t.position t

def kind : TapeRead Kind := do
  return (← current).kind

/-- The kind of the token behind the current one, closing if there is none. -/
def nextKind : TapeRead Kind := fun t =>
  .ok ((t.tokens[t.position + 1]?.map (·.kind)).getD .eof) t

def previous : TapeRead Token := fun t => tokenAt (t.position - 1) t

def atEnd : TapeRead Bool := do
  return (← kind) = .eof

def check (k : Kind) : TapeRead Bool := do
  return (← kind) = k

def move : TapeRead Unit := fun t => .ok () { t with position := t.position + 1 }

/-- Moves on, unless the end is reached, and gives the token before the position. -/
def advance : TapeRead Token := do
  if ← atEnd then previous
  else
    move
    previous

def report (e : TokenError) : TapeRead Unit := fun t => .ok () { t with faults := e :: t.faults }

def reportHere (cause : Cause) : TapeRead Unit := do
  report ⟨← current, cause⟩

def expected (expectation : String) : TapeRead TokenError := do
  return .expected (← current) expectation

def fail {α : Type} (e : TokenError) : TapeRead α := Action.fail (.fault e)

def expect (k : Kind) (expectation : String) : TapeRead Token := do
  if ← check k then advance else fail (← expected expectation)

def behind? {α : Type} (k : Kind) (x : TapeRead α) : TapeRead (Option α) := do
  if ← check k then
    let _ ← advance
    return some (← x)
  else return none

def before? {α : Type} (k : Kind) (x : TapeRead α) : TapeRead (Option α) := do
  if ← check k then return none else return some (← x)

def reportExcess (count : Nat) (cause : Cause) : TapeRead Unit := do
  if maxArity ≤ count then reportHere cause else return ()

def freshId : TapeRead NodeId := fun t => .ok t.nextId { t with nextId := t.nextId + 1 }

/-- Moves on to a statement boundary, in at most as many steps as given. -/
def skip : Nat → TapeRead Unit
  | 0 => Action.outOfSteps
  | n + 1 => do
    if ← atEnd then return ()
    else if (← previous).kind = .semicolon then return ()
    else if (← kind).isBoundary then return ()
    else
      let _ ← advance
      skip n

def synchronize : TapeRead Unit := do
  let _ ← advance
  fun t => skip t.tokens.length t

/-- The fault of a computation as a value; other mishaps stop it. -/
def attempt {α : Type} (x : TapeRead α) : TapeRead (Except TokenError α) := fun t =>
  match x t with
  | .ok a t => .ok (.ok a) t
  | .error (.fault e) t => .ok (.error e) t
  | .error m t => .error m t
  | .exhausted => .exhausted

/-- Passes the token for which something was called: the position moves on by one, and the token
passed is of the kind that was looked up. -/
def dispatched (k : Kind) : TapeRead Token := fun t =>
  match advance t with
  | .ok token t' =>
    if t'.position = t.position + 1 ∧ token.kind = k then .ok token t' else .error (.strayed k) t'
  | other => other

/-- A constant or a variable.  The last arm is for tokens for which this is never called. -/
def primary (token : Token) : TapeRead Expr := do
  match token.kind with
  | .trueKw => return .constant (.bool true)
  | .falseKw => return .constant (.bool false)
  | .nilKw => return .constant .nil
  | .number => return .constant (.number (Read.numberOf token))
  | .string => return .constant (.string (Read.stringOf token))
  | .identifier => return .read (← freshId) token
  | other => Action.fail (.strayed other)

def parameters : Nat → Nat → TapeRead (List Token)
  | 0, _ => Action.outOfSteps
  | n + 1, count => do
    reportExcess count .tooManyParameters
    let name ← expect .identifier "Expect parameter name"
    return name :: (← behind? .comma (parameters n (count + 1))).getD []

/-! ## Expressions, statements and declarations -/

mutual

def expr : Nat → Power → TapeRead Expr
  | 0, _ => Action.outOfSteps
  | n + 1, power => do
    let left ← operand n
    continuations n power left

def continuations : Nat → Power → Expr → TapeRead Expr
  | 0, _, _ => Action.outOfSteps
  | n + 1, power, left => do
    let k ← kind
    if power.level < (boundBy k).level then
      match continuings.lookup k with
      | none => return left
      | some (own, continuing) =>
        let left ← continuation n k own continuing left
        continuations n power left
    else return left

/-- Calls what the table gives for the current token. -/
def operand : Nat → TapeRead Expr
  | 0 => Action.outOfSteps
  | n + 1 => do
    let k ← kind
    match openings.lookup k with
    | some .primary => primary (← dispatched k)
    | some .operator =>
      let operator ← dispatched k
      return .unary operator (← expr n .unary)
    | some .grouping =>
      let _ ← dispatched k
      let inner ← expr n .none
      let _ ← expect .closeParen "Expect ')' after expression"
      return .grouping inner
    | some .function =>
      let keyword ← dispatched k
      let (params, body) ← functionRest n
      return .function keyword params body
    | none => fail (← expected "Expect expression")

/-- What follows `left` at a token of kind `k`, whose own power is given. -/
def continuation : Nat → Kind → Power → Continuing → Expr → TapeRead Expr
  | 0, _, _, _, _ => Action.outOfSteps
  | n + 1, k, own, continuing, left => do
    let operator ← dispatched k
    match continuing with
    | .assignment =>
      let value ← expr n .none
      match left with
      | .read _ name => return .assign (← freshId) name value
      | other =>
        report ⟨operator, .invalidAssignmentTarget⟩
        return other
    | .call =>
      let values ← before? .closeParen (arguments n 0)
      let paren ← expect .closeParen "Expect ')' after arguments"
      return .call left paren (values.getD [])
    | .logical => return .logical left operator (← expr n own)
    | .binary => return .binary left operator (← expr n own)

def arguments : Nat → Nat → TapeRead (List Expr)
  | 0, _ => Action.outOfSteps
  | n + 1, count => do
    reportExcess count .tooManyArguments
    let value ← expr n .none
    return value :: (← behind? .comma (arguments n (count + 1))).getD []

def functionRest : Nat → TapeRead (List Token × List Stmt)
  | 0 => Action.outOfSteps
  | n + 1 => do
    let _ ← expect .openParen "Expect '(' after function name"
    let params ← before? .closeParen (parameters n 0)
    let _ ← expect .closeParen "Expect ')' after parameters"
    let _ ← expect .openCurly "Expect '\x7b' before function body"
    return (params.getD [], ← blockRest n)

def blockRest : Nat → TapeRead (List Stmt)
  | 0 => Action.outOfSteps
  | n + 1 => do
    if (← check .closeCurly) || (← atEnd) then
      let _ ← expect .closeCurly "Expect '\x7d' after block"
      return []
    else
      let first ← declaration n
      return first.toList ++ (← blockRest n)

def declaration : Nat → TapeRead (Option Stmt)
  | 0 => Action.outOfSteps
  | n + 1 => do
    match ← attempt (unguarded n) with
    | .ok s => return some s
    | .error e =>
      report e
      synchronize
      return none

def unguarded : Nat → TapeRead Stmt
  | 0 => Action.outOfSteps
  | n + 1 => do
    match ← kind with
    | .varKw => varDeclaration n
    | .funKw =>
      if (← nextKind) = .identifier then
        let _ ← advance
        let name ← expect .identifier "Expect function name"
        let (params, body) ← functionRest n
        return .function name params body
      else expressionStatement n
    | _ => statement n

def varDeclaration : Nat → TapeRead Stmt
  | 0 => Action.outOfSteps
  | n + 1 => do
    let _ ← advance
    let name ← expect .identifier "Expect variable name"
    let initializer ← behind? .assignment (expr n .none)
    let _ ← expect .semicolon "Expect ';' after variable declaration"
    return .var name initializer

def expressionStatement : Nat → TapeRead Stmt
  | 0 => Action.outOfSteps
  | n + 1 => do
    let value ← expr n .none
    let _ ← expect .semicolon "Expect ';' after expression"
    return .expression value

def statement : Nat → TapeRead Stmt
  | 0 => Action.outOfSteps
  | n + 1 => do
    match ← kind with
    | .printKw =>
      let keyword ← advance
      let value ← expr n .none
      let _ ← expect .semicolon "Expect ';' after value"
      return .print keyword value
    | .openCurly =>
      let _ ← advance
      return .block (← blockRest n)
    | .ifKw =>
      let _ ← advance
      let _ ← expect .openParen "Expect '(' after 'if'"
      let condition ← expr n .none
      let _ ← expect .closeParen "Expect ')' after if condition"
      let thenBranch ← statement n
      return .ifElse condition thenBranch (← behind? .elseKw (statement n))
    | .whileKw =>
      let _ ← advance
      let _ ← expect .openParen "Expect '(' after 'while'"
      let condition ← expr n .none
      let _ ← expect .closeParen "Expect ')' after condition"
      return .while condition (← statement n)
    | .forKw => forStatement n
    | .returnKw =>
      let keyword ← advance
      let value ← before? .semicolon (expr n .none)
      let _ ← expect .semicolon "Expect ';' after return value"
      return .return keyword value
    | _ => expressionStatement n

def initializer : Nat → TapeRead (Option Stmt)
  | 0 => Action.outOfSteps
  | n + 1 => do
    match ← kind with
    | .semicolon =>
      let _ ← advance
      return none
    | .varKw => return some (← varDeclaration n)
    | _ => return some (← expressionStatement n)

def forStatement : Nat → TapeRead Stmt
  | 0 => Action.outOfSteps
  | n + 1 => do
    let _ ← advance
    let _ ← expect .openParen "Expect '(' after 'for'"
    let initializer ← initializer n
    let condition ← before? .semicolon (expr n .none)
    let _ ← expect .semicolon "Expect ';' after loop condition"
    let increment ← before? .closeParen (expr n .none)
    let _ ← expect .closeParen "Expect ')' after for clauses"
    return Read.loopOf initializer condition increment (← statement n)

end

def declarations : Nat → TapeRead (List Stmt)
  | 0 => Action.outOfSteps
  | n + 1 => do
    if ← atEnd then return []
    else
      let first ← declaration n
      return first.toList ++ (← declarations n)

/-- The declarations of a list of tokens, in as many steps as a cursor takes at most. -/
def read (tokens : List Token) (nextId : NodeId) : Outcome Mishap Tape (List Stmt) :=
  declarations (Reading.start tokens nextId).budget (start tokens nextId)

end Tape

end LoxLang
