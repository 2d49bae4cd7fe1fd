import LoxLang.Text.Search
import LoxLang.Token

/-!
What can be wrong with a program or its run, and how that is said.

A `Cause` is the fault itself; it belongs to exactly one phase and has one message.  A `Diagnostic`
is a cause with its place: a line and, unless only the line is known, the end of the text or the
lexeme of the token at fault.
-/

namespace LoxLang

inductive Phase
  | lexical | syntactic | resolution | runtime
  deriving DecidableEq, Repr

inductive Cause
  | unexpectedCharacter (character : Char)
  | unterminatedString
  | unexpectedToken (lexeme expectation : String)
  | tooManyArguments
  | tooManyParameters
  | invalidAssignmentTarget
  | alreadyDeclared (name : String)
  | readInOwnInitializer (name : String)
  | returnAtTopLevel
  | operandNotNumber
  | operandsNotNumbers
  | operandsNotAddable
  | notDeclared (name : String)
  | notCallable
  | wrongArgumentCount (expected received : Nat)
  | nativeFailure (message : String)
  | callsTooDeep (limit : Nat)
  deriving DecidableEq, Repr

namespace Cause

def phase : Cause → Phase
  | unexpectedCharacter _ | unterminatedString => .lexical
  | unexpectedToken _ _ | tooManyArguments | tooManyParameters | invalidAssignmentTarget =>
    .syntactic
  | alreadyDeclared _ | readInOwnInitializer _ | returnAtTopLevel => .resolution
  | operandNotNumber | operandsNotNumbers | operandsNotAddable | notDeclared _ | notCallable
  | wrongArgumentCount _ _ | nativeFailure _ | callsTooDeep _ => .runtime

/-- The name under which a report shows the fault. -/
def name : Cause → String
  | unexpectedCharacter _ => "UnexpectedCharacter"
  | unterminatedString => "UnterminatedString"
  | unexpectedToken _ _ => "UnexpectedToken"
  | tooManyArguments => "TooManyArguments"
  | tooManyParameters => "TooManyParameters"
  | invalidAssignmentTarget => "InvalidAssignmentTarget"
  | alreadyDeclared _ => "VariableAlreadyDeclared"
  | readInOwnInitializer _ => "SelfReferencingInitializer"
  | returnAtTopLevel => "TopLevelReturn"
  | operandNotNumber => "OperandMustBeNumber"
  | operandsNotNumbers => "OperandsMustBeNumbers"
  | operandsNotAddable => "InvalidAdditionOperands"
  | notDeclared _ => "VariableNotDeclared"
  | notCallable => "NotCallable"
  | wrongArgumentCount _ _ => "UnexpectedArguments"
  | nativeFailure _ => "NativeFailure"
  | callsTooDeep _ => "StackOverflow"

def message : Cause → String
  | unexpectedCharacter _ => "Unexpected character"
  | unterminatedString => "Unterminated string"
  | unexpectedToken _ expectation => expectation
  | tooManyArguments => "Can't have more than 255 arguments"
  | tooManyParameters => "Can't have more than 255 parameters"
  | invalidAssignmentTarget => "Invalid assignment target"
  | alreadyDeclared _ => "Already a variable with this name in this scope"
  | readInOwnInitializer _ => "Can't read local variable in its own initializer"
  | returnAtTopLevel => "Can't return from top-level code"
  | operandNotNumber => "Operand must be a number"
  | operandsNotNumbers => "Operands must be numbers"
  | operandsNotAddable => "Operands must be two numbers or two strings"
  | notDeclared name => "Undefined variable '" ++ name ++ "'"
  | notCallable => "Can only call functions"
  | wrongArgumentCount expected received =>
    "Expected " ++ toString expected ++ " arguments but got " ++ toString received
  | nativeFailure message => message
  | callsTooDeep limit => "Stack overflow after " ++ toString limit ++ " nested calls"

/-- Advice on how to mend the fault. -/
def tip? : Cause → Option String
  | unexpectedToken _ expectation =>
    if Text.occursIn "';'".toList expectation.toList then some "did you miss a semicolon?"
    else none
  | invalidAssignmentTarget => some "only variables can be assigned to"
  | readInOwnInitializer name =>
    some ("rename the inner `" ++ name ++ "` or read the outer one before this block")
  | notDeclared name => some ("declare `" ++ name ++ "` with `var` before using it")
  | wrongArgumentCount expected _ => some ("pass exactly " ++ toString expected ++ " arguments")
  | _ => none

end Cause

inductive Location
  /-- Only the line is known. -/
  | line
  | endOfText
  | lexeme (text : String)
  deriving DecidableEq, Repr

structure Diagnostic where
  cause : Cause
  line : Nat
  location : Location
  deriving DecidableEq, Repr

namespace Diagnostic

def atLine (cause : Cause) (line : Nat) : Diagnostic := ⟨cause, line, .line⟩

/-- A fault at a token; the closing token of a text has no lexeme to show. -/
def atToken (cause : Cause) (token : Token) : Diagnostic :=
  ⟨cause, token.line, if token.kind = .eof then .endOfText else .lexeme token.lexeme⟩

def phase (d : Diagnostic) : Phase := d.cause.phase

def display (d : Diagnostic) : String :=
  let head := "[line " ++ toString d.line ++ "] Error"
  match d.location with
  | .line => head ++ ": " ++ d.cause.message
  | .endOfText => head ++ " at end: " ++ d.cause.message
  | .lexeme text => head ++ " at '" ++ text ++ "': " ++ d.cause.message

/-- The diagnostic on one line, with the name of the file.  A runtime fault is shown with its line
only. -/
def render (d : Diagnostic) (file : String) : String :=
  let head := file ++ ":" ++ toString d.line ++ ": "
  if d.phase = .runtime then head ++ d.cause.message
  else
    match d.location with
    | .line => head ++ d.cause.message
    | .endOfText => head ++ "at end " ++ d.cause.message
    | .lexeme text => head ++ "at '" ++ text ++ "' " ++ d.cause.message

end Diagnostic

/-! ## Faults as the phases find them -/

/-- A fault in the text itself. -/
structure LexicalError where
  line : Nat
  cause : Cause
  deriving DecidableEq, Repr

def LexicalError.diagnostic (e : LexicalError) : Diagnostic := .atLine e.cause e.line

/-- A fault at a token of the program. -/
structure TokenError where
  token : Token
  cause : Cause

def TokenError.diagnostic (e : TokenError) : Diagnostic := .atToken e.cause e.token

/-- Something else than `token` was expected. -/
def TokenError.expected (token : Token) (expectation : String) : TokenError :=
  ⟨token, .unexpectedToken token.lexeme expectation⟩

end LoxLang
