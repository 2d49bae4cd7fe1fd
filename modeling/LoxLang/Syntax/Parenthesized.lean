import LoxLang.Syntax

/-!
The parenthesized form of a program: every node as its head and its parts in parentheses, such as
`(+ 1 (* 2 3))`.  Constants and variable reads stand without parentheses.
-/

namespace LoxLang

/-- A head and its parts in parentheses. -/
def parenthesized (head : String) (parts : List String) : String :=
  "(" ++ head ++ String.join (parts.map fun p => " " ++ p) ++ ")"

/-- The parameters of a function, which stand before its body. -/
def parameterList (params : List Token) : String :=
  "(" ++ " ".intercalate (params.map (·.lexeme)) ++ ")"

mutual

def Expr.parenthesized : Expr → String
  | .constant value => value.source
  | .grouping inner => LoxLang.parenthesized "group" [inner.parenthesized]
  | .unary operator operand => LoxLang.parenthesized operator.lexeme [operand.parenthesized]
  | .binary left operator right =>
    LoxLang.parenthesized operator.lexeme [left.parenthesized, right.parenthesized]
  | .logical left operator right =>
    LoxLang.parenthesized operator.lexeme [left.parenthesized, right.parenthesized]
  | .read _ name => name.lexeme
  | .assign _ name value => LoxLang.parenthesized "set" [name.lexeme, value.parenthesized]
  | .call callee _ arguments =>
    LoxLang.parenthesized "call" (callee.parenthesized :: Expr.parenthesizedAll arguments)
  | .function _ params body =>
    LoxLang.parenthesized "fun" (parameterList params :: Stmt.parenthesizedAll body)
termination_by structural e => e

def Expr.parenthesizedAll : List Expr → List String
  | [] => []
  | e :: es => e.parenthesized :: Expr.parenthesizedAll es
termination_by structural es => es

def Expr.parenthesizedOption : Option Expr → List String
  | none => []
  | some e => [e.parenthesized]
termination_by structural e => e

def Stmt.parenthesized : Stmt → String
  | .expression value => value.parenthesized
  | .print _ value => LoxLang.parenthesized "print" [value.parenthesized]
  | .var name initializer =>
    LoxLang.parenthesized "var" (name.lexeme :: Expr.parenthesizedOption initializer)
  | .block body => LoxLang.parenthesized "block" (Stmt.parenthesizedAll body)
  | .ifElse condition thenBranch elseBranch =>
    LoxLang.parenthesized "if"
      (condition.parenthesized :: thenBranch.parenthesized :: Stmt.parenthesizedOption elseBranch)
  | .while condition body =>
    LoxLang.parenthesized "while" [condition.parenthesized, body.parenthesized]
  | .function name params body =>
    LoxLang.parenthesized "fun"
      (name.lexeme :: parameterList params :: Stmt.parenthesizedAll body)
  | .return _ value => LoxLang.parenthesized "return" (Expr.parenthesizedOption value)
termination_by structural s => s

def Stmt.parenthesizedAll : List Stmt → List String
  | [] => []
  | s :: ss => s.parenthesized :: Stmt.parenthesizedAll ss
termination_by structural ss => ss

def Stmt.parenthesizedOption : Option Stmt → List String
  | none => []
  | some s => [s.parenthesized]
termination_by structural s => s

end

/-- A program in parenthesized form, one line for each statement. -/
def parenthesizedProgram (program : List Stmt) : String :=
  "\n".intercalate (Stmt.parenthesizedAll program)

end LoxLang
