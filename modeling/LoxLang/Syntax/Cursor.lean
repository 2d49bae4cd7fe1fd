import LoxLang.Syntax.Precedence

/-!
A cursor in a list of tokens that is being read.

The list always ends with a closing token, and the cursor never moves past the first one.  At the
beginning the previous token is the current one.
-/

namespace LoxLang

structure Cursor where
  previous : Token
  current : Token
  upcoming : List Token

/-- The tokens, with a closing one at the end if there is none. -/
def closeTokens (tokens : List Token) : List Token :=
  match tokens.getLast? with
  | none => [.eofAt 1]
  | some last => if last.kind = .eof then tokens else tokens ++ [.eofAt last.line]

namespace Cursor

def ofTokens (tokens : List Token) : Cursor :=
  match closeTokens tokens with
  | [] => ⟨.eofAt 1, .eofAt 1, []⟩
  | first :: rest => ⟨first, first, rest⟩

def kind (c : Cursor) : Kind := c.current.kind

def atEnd (c : Cursor) : Bool := c.kind = .eof

def nextKind (c : Cursor) : Kind := (c.upcoming.head?.map (·.kind)).getD .eof

/-- The cursor one token on, unless it is at the end. -/
def advance (c : Cursor) : Cursor :=
  if c.atEnd then c
  else
    match c.upcoming with
    | [] => c
    | t :: ts => ⟨c.current, t, ts⟩

/-- Moves on until a semicolon has just been passed, a boundary keyword is reached, or the tokens
end. -/
def skip (previous current : Token) (upcoming : List Token) : Cursor :=
  if current.kind = .eof || previous.kind = .semicolon || current.kind.isBoundary then
    ⟨previous, current, upcoming⟩
  else
    match upcoming with
    | [] => ⟨previous, current, []⟩
    | t :: ts => skip current t ts

/-- Gives up the statement at hand: passes one token, then moves on to where the next statement may
start. -/
def synchronize (c : Cursor) : Cursor :=
  let next := c.advance
  skip next.previous next.current next.upcoming

end Cursor

end LoxLang
