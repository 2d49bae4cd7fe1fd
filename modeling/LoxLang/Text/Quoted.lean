import LoxLang.Text.Unprintable

/-!
Quoted texts: how a string value is written when its type should be seen.

The text stands between double quotes.  A double quote, a backslash, a newline, a carriage return,
a tab and a null character have an escape of two characters; any other character that is not shown
as it is (`isUnprintable`) is written by its number, in lower-case hexadecimal without padding.
-/

namespace LoxLang.Text

def hexNumber (n : Nat) : List Char := Nat.toDigits 16 n

/-- One character inside a quoted text. -/
def escaped (c : Char) : List Char :=
  match c with
  | '"' => ['\\', '"']
  | '\\' => ['\\', '\\']
  | '\n' => ['\\', 'n']
  | '\r' => ['\\', 'r']
  | '\t' => ['\\', 't']
  | '\x00' => ['\\', '0']
  | _ => if isUnprintable c then '\\' :: 'u' :: '\x7b' :: (hexNumber c.toNat ++ ['\x7d']) else [c]

def quoted (s : String) : String :=
  String.ofList ('"' :: (s.toList.flatMap escaped ++ ['"']))

end LoxLang.Text
