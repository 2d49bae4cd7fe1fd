import LoxLang.Token

/-!
Which kinds of tokens start what, and how tightly the operators bind.

A token continues an expression exactly when its power is above `none`; the same mark may also start
one, as `-` and `(` do.
-/

namespace LoxLang

/-- Binding powers, from the loosest to the tightest. -/
inductive Power
  | none | assignment | logicalOr | logicalAnd | equality | comparison | additive | multiplicative
  | unary | call
  deriving DecidableEq, Repr

namespace Power

def level : Power → Nat
  | none => 0
  | assignment => 1
  | logicalOr => 2
  | logicalAnd => 3
  | equality => 4
  | comparison => 5
  | additive => 6
  | multiplicative => 7
  | unary => 8
  | call => 9

theorem level_inj {p q : Power} (h : p.level = q.level) : p = q := by
  cases p <;> cases q <;> first | rfl | exact absurd h (by decide)

end Power

namespace Kind

/-- How tightly a token binds the expression before it. -/
def power : Kind → Power
  | assignment => .assignment
  | orKw => .logicalOr
  | andKw => .logicalAnd
  | equals | notEquals => .equality
  | less | lessEquals | greater | greaterEquals => .comparison
  | plus | dash => .additive
  | star | slash | percent => .multiplicative
  | openParen => .call
  | _ => .none

def continuesExpression (k : Kind) : Bool := k.power ≠ .none

def startsExpression : Kind → Bool
  | number | string | trueKw | falseKw | nilKw | identifier | not | dash | openParen | funKw => true
  | _ => false

def startsDeclaration : Kind → Bool
  | varKw | funKw => true
  | _ => false

/-- The kinds that start a statement other than an expression statement. -/
def startsStatement : Kind → Bool
  | printKw | openCurly | ifKw | whileKw | forKw | returnKw => true
  | _ => false

/-- The keywords at which reading goes on after a fault. -/
def isBoundary : Kind → Bool
  | classKw | funKw | varKw | forKw | ifKw | whileKw | printKw | returnKw => true
  | _ => false

end Kind

end LoxLang
