import LoxLang.Syntax

/-!
Programs as source text.

Operands are written in order, with the parentheses that the program had and no others, so the text
reads back as the same tree.  Blocks put each statement on a line of its own, four blanks deeper;
the body of a function expression counts its depth from the margin again.
-/

namespace LoxLang

/-- The blanks before a line at a given depth. -/
def indentation (depth : Nat) : String := String.ofList (List.replicate (4 * depth) ' ')

/-- Parameters in parentheses, and the blank behind them. -/
def parameterSource (params : List Token) : String :=
  "(" ++ ", ".intercalate (params.map (·.lexeme)) ++ ") "

mutual

def Expr.source : Expr → String
  | .constant value => value.source
  | .grouping inner => "(" ++ inner.source ++ ")"
  | .unary operator operand => operator.lexeme ++ operand.source
  | .binary left operator right => left.source ++ " " ++ operator.lexeme ++ " " ++ right.source
  | .logical left operator right => left.source ++ " " ++ operator.lexeme ++ " " ++ right.source
  | .read _ name => name.lexeme
  | .assign _ name value => name.lexeme ++ " = " ++ value.source
  | .call callee _ arguments =>
    callee.source ++ "(" ++ ", ".intercalate (Expr.sourceAll arguments) ++ ")"
  | .function _ params body => "fun " ++ parameterSource params ++ Stmt.blockSource 0 body
termination_by structural e => e

def Expr.sourceAll : List Expr → List String
  | [] => []
  | e :: es => e.source :: Expr.sourceAll es
termination_by structural es => es

/-- An optional expression behind a given text, which stands only if the expression does. -/
def Expr.sourceAfter (before : String) : Option Expr → String
  | none => ""
  | some e => before ++ e.source
termination_by structural e => e

/-- A statement at a given depth, without the blanks before it. -/
def Stmt.source (depth : Nat) : Stmt → String
  | .expression value => value.source ++ ";"
  | .print _ value => "print " ++ value.source ++ ";"
  | .var name initializer => "var " ++ name.lexeme ++ Expr.sourceAfter " = " initializer ++ ";"
  | .block body => Stmt.blockSource depth body
  | .ifElse condition thenBranch elseBranch =>
    "if (" ++ condition.source ++ ") " ++ thenBranch.source depth ++
      Stmt.sourceAfterElse depth elseBranch
  | .while condition body => "while (" ++ condition.source ++ ") " ++ body.source depth
  | .function name params body =>
    "fun " ++ name.lexeme ++ parameterSource params ++ Stmt.blockSource depth body
  | .return _ value => "return" ++ Expr.sourceAfter " " value ++ ";"
termination_by structural s => s

def Stmt.sourceAfterElse (depth : Nat) : Option Stmt → String
  | none => ""
  | some s => " else " ++ s.source depth
termination_by structural s => s

/-- The braces of a block at a given depth and the statements between them. -/
def Stmt.blockSource (depth : Nat) : List Stmt → String
  | [] => "\x7b\x7d"
  | s :: ss =>
    "\x7b\n" ++ (indentation (depth + 1) ++ s.source (depth + 1) ++ "\n") ++
      Stmt.linesSource (depth + 1) ss ++ indentation depth ++ "\x7d"
termination_by structural ss => ss

/-- Statements at a given depth, each on a line of its own. -/
def Stmt.linesSource (depth : Nat) : List Stmt → String
  | [] => ""
  | s :: ss => indentation depth ++ s.source depth ++ "\n" ++ Stmt.linesSource depth ss
termination_by structural ss => ss

end

/-- A program as source text. -/
def sourceProgram (program : List Stmt) : String := Stmt.linesSource 0 program

end LoxLang
