import LoxLang.Number.Text

/-!
Tokens: the words and marks of a program text.

A token has a kind, the lexeme as it stands in the text, the line on which it ends and, for numbers
and strings, the literal it denotes.  `Kind.ofWord` tells keywords from identifiers.
-/

namespace LoxLang

/-- The kinds of tokens. -/
inductive Kind
  | eof | number | string | identifier
  | openParen | closeParen | openCurly | closeCurly
  | assignment | equals | not | notEquals | less | lessEquals | greater | greaterEquals
  | dot | semicolon | comma
  | plus | dash | slash | star | percent
  | andKw | classKw | elseKw | falseKw | forKw | funKw | ifKw | nilKw | orKw | printKw | returnKw
  | superKw | thisKw | trueKw | varKw | whileKw
  deriving DecidableEq, Repr

namespace Kind

def all : List Kind :=
  [eof, number, string, identifier, openParen, closeParen, openCurly, closeCurly, assignment,
    equals, not, notEquals, less, lessEquals, greater, greaterEquals, dot, semicolon, comma, plus,
    dash, slash, star, percent, andKw, classKw, elseKw, falseKw, forKw, funKw, ifKw, nilKw, orKw,
    printKw, returnKw, superKw, thisKw, trueKw, varKw, whileKw]

theorem mem_all (k : Kind) : k ∈ all := by cases k <;> decide

/-- The name of a kind in a listing of tokens. -/
def name : Kind → String
  | eof => "EOF" | number => "Number" | string => "String" | identifier => "Identifier"
  | openParen => "OpenParen" | closeParen => "CloseParen"
  | openCurly => "OpenCurly" | closeCurly => "CloseCurly"
  | assignment => "Assignment" | equals => "Equals" | not => "Not" | notEquals => "NotEquals"
  | less => "Less" | lessEquals => "LessEquals"
  | greater => "Greater" | greaterEquals => "GreaterEquals"
  | dot => "Dot" | semicolon => "Semicolon" | comma => "Comma"
  | plus => "Plus" | dash => "Dash" | slash => "Slash" | star => "Star" | percent => "Percent"
  | andKw => "And" | classKw => "Class" | elseKw => "Else" | falseKw => "False" | forKw => "For"
  | funKw => "Fun" | ifKw => "If" | nilKw => "Nil" | orKw => "Or" | printKw => "Print"
  | returnKw => "Return" | superKw => "Super" | thisKw => "This" | trueKw => "True"
  | varKw => "Var" | whileKw => "While"

def ofName? (s : String) : Option Kind := all.find? fun k => k.name = s

/-- The keywords and their kinds. -/
def keywords : List (String × Kind) :=
  [("and", andKw), ("class", classKw), ("else", elseKw), ("false", falseKw), ("for", forKw),
    ("fun", funKw), ("if", ifKw), ("nil", nilKw), ("or", orKw), ("print", printKw),
    ("return", returnKw), ("super", superKw), ("this", thisKw), ("true", trueKw), ("var", varKw),
    ("while", whileKw)]

/-- The kind of a word: that of the keyword, or identifier when it is none. -/
def ofWord (word : String) : Kind := (keywords.lookup word).getD identifier

theorem ofName?_name (k : Kind) : ofName? k.name = some k := by cases k <;> decide

end Kind

/-- What a number or string token denotes. -/
inductive Literal
  | number (value : Float)
  | string (value : String)

namespace Literal

/-- Equal literals; numbers are compared as numbers. -/
def same : Literal → Literal → Bool
  | number a, number b => a == b
  | string a, string b => a == b
  | _, _ => false

def text : Literal → String
  | number x => Number.toText x
  | string s => s

end Literal

structure Token where
  kind : Kind
  lexeme : String
  literal : Option Literal
  line : Nat

namespace Token

/-- The token that closes a text whose last line is `line`. -/
def eofAt (line : Nat) : Token := ⟨.eof, "", none, line⟩

/-- Equal in every part, the line included. -/
def same (a b : Token) : Bool :=
  a.kind == b.kind && a.lexeme == b.lexeme && a.line == b.line &&
    match a.literal, b.literal with
    | none, none => true
    | some x, some y => x.same y
    | _, _ => false

/-- The token on one line: where it is, its kind, its lexeme and its literal. -/
def display (t : Token) : String :=
  let head := toString t.line ++ ": " ++ t.kind.name ++ " " ++ t.lexeme
  match t.literal with
  | none => head
  | some l => head ++ " " ++ l.text

/-- The entry of a token in a listing; only the lexemes of names and literals are shown. -/
def listing (t : Token) : String :=
  match t.kind with
  | .string | .identifier | .number => t.kind.name ++ " (" ++ t.lexeme ++ ")"
  | _ => t.kind.name ++ " ()"

/-- One line for each token. -/
def listings (ts : List Token) : String := String.join (ts.map fun t => t.listing ++ "\n")

end Token

end LoxLang
