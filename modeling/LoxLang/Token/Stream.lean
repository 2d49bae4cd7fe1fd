import LoxLang.Diagnostic
import LoxLang.Text.Place
import LoxLang.Token.Segment

/-!
The tokens of a program text, and what is wrong with the text.

Both are read off the segments.  The line of a token or of a fault is the line on which its segment
ends: one more than the newlines of the text up to there.  The last token closes the text.
-/

namespace LoxLang

namespace Segment

/-- What a token with the given lexeme denotes: a number, or what stands between the quotes. -/
def literal? (kind : Kind) (text : List Char) : Option Literal :=
  match kind with
  | .number => some (.number ((Number.ofText? (String.ofList text)).getD 0))
  | .string => some (.string (String.ofList (text.tail.dropLast)))
  | _ => none

/-- The token that a segment is, when it ends on the given line. -/
def token? (s : Segment) (line : Nat) : Option Token :=
  match s.piece with
  | .token kind => some ⟨kind, String.ofList s.text, literal? kind s.text, line⟩
  | _ => none

def error? (s : Segment) (line : Nat) : Option LexicalError :=
  match s.piece with
  | .unexpected c => some ⟨line, .unexpectedCharacter c⟩
  | .unterminated => some ⟨line, .unterminatedString⟩
  | _ => none

end Segment

/-- Segments with the lines on which they end, when the first one starts on `line`. -/
def withLines (line : Nat) : List Segment → List (Segment × Nat)
  | [] => []
  | s :: rest =>
    let after := line + Text.newlines s.text
    (s, after) :: withLines after rest

namespace Token

/-- The tokens of a text, the closing one included. -/
def ofText (text : String) : List Token :=
  let cs := text.toList
  (withLines 1 (segments cs)).filterMap (fun s => s.1.token? s.2) ++ [eofAt (1 + Text.newlines cs)]

/-- The faults of a text, in order. -/
def errorsIn (text : String) : List LexicalError :=
  (withLines 1 (segments text.toList)).filterMap fun s => s.1.error? s.2

end Token

end LoxLang
