import LoxLang.Syntax
import LoxLang.Text.Quoted

/-!
Values of running programs.

Besides `nil`, truth values, numbers and strings there are callables: functions of the program with
what they keep of the place where they were created, and functions of the host.  Each callable has
a number of its own, and two callables are equal when they have the same number.

What a function keeps is a parameter of the type.  In a run it is the frame that was active; nothing
here looks at it.
-/

namespace LoxLang

/-- The number of a frame. -/
abbrev FrameId := Nat

inductive Callable (ε : Type := FrameId)
  /-- A function of the program: its name if it has one, and what it keeps of where it was
  created. -/
  | closure (name : Option String) (params : List Token) (body : List Stmt) (kept : ε)
  /-- A function of the host. -/
  | native (name : String) (arity : Nat)

inductive Value (ε : Type := FrameId)
  | nil
  | bool (value : Bool)
  | number (value : Float)
  | string (value : String)
  | callable (identity : Nat) (function : Callable ε)

variable {ε : Type}

namespace Callable

def arity : Callable ε → Nat
  | closure _ params _ _ => params.length
  | native _ arity => arity

def display : Callable ε → String
  | closure (some name) _ _ _ => "<fn " ++ name ++ ">"
  | closure none _ _ _ => "<fn>"
  | native _ _ => "<native fn>"

end Callable

namespace Value

/-- `nil` and `false` count as false, everything else as true. -/
def isTruthy : Value ε → Bool
  | nil => false
  | bool b => b
  | _ => true

/-- Equality as the program sees it; values of different types are never equal. -/
def equals : Value ε → Value ε → Bool
  | nil, nil => true
  | bool a, bool b => a == b
  | number a, number b => a == b
  | string a, string b => a == b
  | callable i _, callable j _ => i == j
  | _, _ => false

def ofConstant : Constant → Value ε
  | .number x => number x
  | .string s => string s
  | .bool b => bool b
  | .nil => nil

def display : Value ε → String
  | nil => "nil"
  | bool b => if b then "true" else "false"
  | number x => Number.toText x
  | string s => s
  | callable _ f => f.display

/-- The value with its type showing: as `display`, but strings are quoted. -/
def quotedDisplay : Value ε → String
  | string s => Text.quoted s
  | v => v.display

end Value

end LoxLang
