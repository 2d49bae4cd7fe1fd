/-!
Places in a text: the number of the line that has been reached, and what of the text is left.

Lines are counted by their newlines, sizes by the bytes of the UTF-8 encoding.  Moving on keeps
what is left a suffix of the text (`Place.ahead_past`), and the line of a place is one more than
the newlines before it.
-/

namespace LoxLang.Text

def newlines (cs : List Char) : Nat := cs.count '\n'

@[simp] theorem newlines_nil : newlines [] = 0 := rfl

@[simp] theorem newlines_append (a b : List Char) :
    newlines (a ++ b) = newlines a + newlines b := List.count_append

/-- Size of a text in bytes. -/
def byteSize : List Char → Nat
  | [] => 0
  | c :: cs => c.utf8Size + byteSize cs

/-- The pieces of a sequence between newlines, each without the carriage return before its newline,
and without an empty last piece. -/
def pieces {α : Type} [DecidableEq α] (newline carriageReturn : α) : List α → List (List α)
  | [] => []
  | c :: rest =>
    if c = newline then [] :: pieces newline carriageReturn rest
    else if c = carriageReturn && rest.head? = some newline then pieces newline carriageReturn rest
    else
      match pieces newline carriageReturn rest with
      | [] => [[c]]
      | first :: others => (c :: first) :: others

/-- The lines of a text. -/
def lines (cs : List Char) : List (List Char) := pieces '\n' '\r' cs

structure Place where
  line : Nat
  ahead : List Char
  deriving DecidableEq

namespace Place

/-- The beginning of a text, on line one. -/
def start (cs : List Char) : Place := ⟨1, cs⟩

/-- The place behind the next `n` characters. -/
def past (p : Place) (n : Nat) : Place := ⟨p.line + newlines (p.ahead.take n), p.ahead.drop n⟩

/-- How many of the characters start within the first `n` bytes. -/
def charsWithin : Nat → List Char → Nat
  | _, [] => 0
  | 0, _ :: _ => 0
  | n + 1, c :: cs => charsWithin (n + 1 - c.utf8Size) cs + 1

/-- The place `n` bytes on, or the end of the text when it has fewer. -/
def pastBytes (p : Place) (n : Nat) : Place := p.past (charsWithin n p.ahead)

def atEnd (p : Place) : Bool := p.ahead.isEmpty

theorem ahead_past (p : Place) (n : Nat) : p.ahead.take n ++ (p.past n).ahead = p.ahead :=
  List.take_append_drop n p.ahead

end Place

end LoxLang.Text
