import LoxLang.Machine
import LoxLang.Number.Remainder

/-!
What the operators do with values.

Only `!`, `==` and `!=` take values of every type.  `+` takes two numbers or two strings, and the
other operators take numbers.
-/

namespace LoxLang

variable {ε σ : Type}

/-- The operators on two numbers, other than `+`. -/
def numberOperation? : Kind → Option (Float → Float → Value ε)
  | .dash => some fun a b => .number (a - b)
  | .star => some fun a b => .number (a * b)
  | .slash => some fun a b => .number (a / b)
  | .percent => some fun a b => .number (Number.remainder a b)
  | .less => some fun a b => .bool (a < b)
  | .lessEquals => some fun a b => .bool (a ≤ b)
  | .greater => some fun a b => .bool (b < a)
  | .greaterEquals => some fun a b => .bool (b ≤ a)
  | _ => none

namespace Run

def applyUnary (operator : Token) (v : Value ε) : Action Stop σ (Value ε) :=
  match operator.kind with
  | .not => pure (.bool !v.isTruthy)
  | .dash =>
    match v with
    | .number x => pure (.number (-x))
    | _ => fault .operandNotNumber operator
  | _ => Action.fail (.malformed operator)

def applyBinary (operator : Token) (a b : Value ε) : Action Stop σ (Value ε) :=
  match operator.kind with
  | .equals => pure (.bool (a.equals b))
  | .notEquals => pure (.bool !(a.equals b))
  | .plus =>
    match a, b with
    | .number x, .number y => pure (.number (x + y))
    | .string s, .string t => pure (.string (s ++ t))
    | _, _ => fault .operandsNotAddable operator
  | kind =>
    match a, b with
    | .number x, .number y =>
      match numberOperation? kind with
      | some operation => pure (operation x y)
      | none => Action.fail (.malformed operator)
    | _, _ => fault .operandsNotNumbers operator

/-- Whether the left operand of `and` or `or` decides the result. -/
def decides (operator : Token) (left : Value ε) : Bool :=
  if operator.kind = .orKw then left.isTruthy else !left.isTruthy

end Run

end LoxLang
