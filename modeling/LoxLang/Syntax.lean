import LoxLang.Token

/-!
Programs as trees.

Expressions and statements are one mutual family, since a function expression holds statements.
Operators, names and the parts that a runtime fault may point at are kept as the tokens they came
from.  Every read of a variable and every assignment has a number of its own (`NodeId`), by which
the resolution of names refers to it.
-/

namespace LoxLang

/-- The number of a variable read or an assignment. -/
abbrev NodeId := Nat

/-- A constant written in the program. -/
inductive Constant
  | number (value : Float)
  | string (value : String)
  | bool (value : Bool)
  | nil

namespace Constant

def same : Constant → Constant → Bool
  | number a, number b => a == b
  | string a, string b => a == b
  | bool a, bool b => a == b
  | nil, nil => true
  | _, _ => false

/-- A constant as it stands in a program. -/
def source : Constant → String
  | number x => Number.toText x
  | string s => "\"" ++ s ++ "\""
  | bool b => if b then "true" else "false"
  | nil => "nil"

end Constant

mutual

inductive Expr
  | constant (value : Constant)
  | grouping (inner : Expr)
  | unary (operator : Token) (operand : Expr)
  | binary (left : Expr) (operator : Token) (right : Expr)
  | logical (left : Expr) (operator : Token) (right : Expr)
  | read (id : NodeId) (name : Token)
  | assign (id : NodeId) (name : Token) (value : Expr)
  /-- A call, with its closing parenthesis. -/
  | call (callee : Expr) (paren : Token) (arguments : List Expr)
  | function (keyword : Token) (params : List Token) (body : List Stmt)

inductive Stmt
  | expression (value : Expr)
  | print (keyword : Token) (value : Expr)
  | var (name : Token) (initializer : Option Expr)
  | block (body : List Stmt)
  | ifElse (condition : Expr) (thenBranch : Stmt) (elseBranch : Option Stmt)
  | while (condition : Expr) (body : Stmt)
  | function (name : Token) (params : List Token) (body : List Stmt)
  | return (keyword : Token) (value : Option Expr)

end

/-! ## Equality of trees

Trees are the same when they agree in every part: tokens with their lines, and node numbers. -/

def sameTokens : List Token → List Token → Bool
  | [], [] => true
  | a :: as, b :: bs => a.same b && sameTokens as bs
  | _, _ => false

mutual

def Expr.same : Expr → Expr → Bool
  | .constant a, .constant b => a.same b
  | .grouping a, .grouping b => a.same b
  | .unary o a, .unary p b => o.same p && a.same b
  | .binary a o c, .binary b p d => a.same b && o.same p && c.same d
  | .logical a o c, .logical b p d => a.same b && o.same p && c.same d
  | .read i m, .read j n => i == j && m.same n
  | .assign i m a, .assign j n b => i == j && m.same n && a.same b
  | .call a p as, .call b q bs => a.same b && p.same q && Expr.sameAll as bs
  | .function k ps as, .function l qs bs => k.same l && sameTokens ps qs && Stmt.sameAll as bs
  | _, _ => false
termination_by structural a => a

def Expr.sameAll : List Expr → List Expr → Bool
  | [], [] => true
  | a :: as, b :: bs => a.same b && Expr.sameAll as bs
  | _, _ => false
termination_by structural as => as

def Expr.sameOption : Option Expr → Option Expr → Bool
  | none, none => true
  | some a, some b => a.same b
  | _, _ => false
termination_by structural a => a

def Stmt.same : Stmt → Stmt → Bool
  | .expression a, .expression b => a.same b
  | .print k a, .print l b => k.same l && a.same b
  | .var m a, .var n b => m.same n && Expr.sameOption a b
  | .block as, .block bs => Stmt.sameAll as bs
  | .ifElse a b e, .ifElse c d f => a.same c && b.same d && Stmt.sameOption e f
  | .while a b, .while c d => a.same c && b.same d
  | .function m ps as, .function n qs bs => m.same n && sameTokens ps qs && Stmt.sameAll as bs
  | .return k a, .return l b => k.same l && Expr.sameOption a b
  | _, _ => false
termination_by structural a => a

def Stmt.sameAll : List Stmt → List Stmt → Bool
  | [], [] => true
  | a :: as, b :: bs => a.same b && Stmt.sameAll as bs
  | _, _ => false
termination_by structural as => as

def Stmt.sameOption : Option Stmt → Option Stmt → Bool
  | none, none => true
  | some a, some b => a.same b
  | _, _ => false
termination_by structural a => a

end

end LoxLang
