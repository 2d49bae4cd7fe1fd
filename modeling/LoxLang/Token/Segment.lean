import LoxLang.Text.Blank
import LoxLang.Token

/-!
Cutting a program text into segments, from left to right, without gap or overlap.

Each segment is a token, a run of blanks, a comment, a character that no token starts with, or a
string whose closing quote is missing.  `Segment.first` finds the first one, and
`join_segments` says that the segments of a text, put together, are the text again.
-/

namespace LoxLang

/-- What a segment of a program text is. -/
inductive Piece
  | token (kind : Kind)
  | blank
  /-- From two slashes up to the next newline. -/
  | comment
  /-- A single character with which no token starts. -/
  | unexpected (c : Char)
  /-- From a quote without a partner to the end of the text. -/
  | unterminated
  deriving DecidableEq, Repr

structure Segment where
  piece : Piece
  text : List Char
  deriving DecidableEq, Repr

/-! ## Character classes -/

/-- Words are made of ASCII letters, digits and underscores and do not start with a digit. -/
def startsWord (c : Char) : Bool := c.isAlpha || c == '_'

def inWord (c : Char) : Bool := c.isAlphanum || c == '_'

/-- The marks.  A mark of two characters stands before the mark of its first character. -/
def marks : List (List Char × Kind) :=
  [(['{'], .openCurly), (['}'], .closeCurly), (['('], .openParen), ([')'], .closeParen),
    (['=', '='], .equals), (['!', '='], .notEquals), (['!'], .not), (['='], .assignment),
    (['<', '='], .lessEquals), (['<'], .less), (['>', '='], .greaterEquals), (['>'], .greater),
    (['.'], .dot), ([';'], .semicolon), ([','], .comma), (['+'], .plus), (['-'], .dash),
    (['/'], .slash), (['*'], .star), (['%'], .percent)]

namespace Segment

/-! ## The first segment of a text -/

/-- Digits, with a fraction if a point and at least one digit follow. -/
def numeral (cs : List Char) : List Char :=
  let whole := cs.takeWhile Char.isDigit
  match cs.dropWhile Char.isDigit with
  | '.' :: rest =>
    let fraction := rest.takeWhile Char.isDigit
    if fraction.isEmpty then whole else whole ++ '.' :: fraction
  | _ => whole

/-- The segment that starts with an opening quote; `cs` is what follows the quote. -/
def quotation (cs : List Char) : Segment :=
  let body := cs.takeWhile (· ≠ '"')
  match cs.dropWhile (· ≠ '"') with
  | [] => ⟨.unterminated, '"' :: body⟩
  | quote :: _ => ⟨.token .string, '"' :: (body ++ [quote])⟩

/-- The mark at the beginning of a text, if there is one. -/
def mark? (cs : List Char) : Option Segment :=
  (marks.find? fun m => m.1.isPrefixOf cs).map fun m => ⟨.token m.2, m.1⟩

/-- The first segment of the text `c :: cs`. -/
def first (c : Char) (cs : List Char) : Segment :=
  if startsWord c then
    let word := c :: cs.takeWhile inWord
    ⟨.token (Kind.ofWord (String.ofList word)), word⟩
  else if c.isDigit then ⟨.token .number, numeral (c :: cs)⟩
  else if Text.isBlank c then ⟨.blank, c :: cs.takeWhile Text.isBlank⟩
  else if c = '"' then quotation cs
  else if c = '/' && cs.head? = some '/' then ⟨.comment, c :: cs.takeWhile (· ≠ '\n')⟩
  else (mark? (c :: cs)).getD ⟨.unexpected c, [c]⟩

theorem numeral_prefix (cs : List Char) : numeral cs <+: cs := by
  unfold numeral
  have h := List.takeWhile_append_dropWhile (p := Char.isDigit) (l := cs)
  split
  · rename_i rest hr
    rw [hr] at h
    dsimp only
    split
    · exact List.takeWhile_prefix _
    · conv => rhs; rw [← h]
      rw [List.prefix_append_right_inj, List.cons_prefix_cons]
      exact ⟨rfl, List.takeWhile_prefix _⟩
  · exact List.takeWhile_prefix _

theorem numeral_ne_nil {c : Char} {cs : List Char} (h : c.isDigit = true) :
    numeral (c :: cs) ≠ [] := by
  unfold numeral
  rw [List.takeWhile_cons_of_pos h]
  split
  · dsimp only
    split <;> simp
  · simp

theorem quotation_prefix (cs : List Char) : (quotation cs).text <+: '"' :: cs := by
  unfold quotation
  have h := List.takeWhile_append_dropWhile (p := (· ≠ '"')) (l := cs)
  split
  · rw [List.cons_prefix_cons]
    exact ⟨rfl, List.takeWhile_prefix _⟩
  · rename_i quote rest hr
    rw [hr] at h
    rw [List.cons_prefix_cons]
    refine ⟨rfl, ?_⟩
    conv => rhs; rw [← h]
    rw [List.prefix_append_right_inj, List.cons_prefix_cons]
    exact ⟨rfl, List.nil_prefix⟩

theorem quotation_ne_nil (cs : List Char) : (quotation cs).text ≠ [] := by
  unfold quotation
  split <;> simp

theorem marks_ne_nil : ∀ m ∈ marks, m.1 ≠ [] := by decide

theorem mark?_some {cs : List Char} {s : Segment} (h : mark? cs = some s) :
    s.text <+: cs ∧ s.text ≠ [] := by
  unfold mark? at h
  obtain ⟨m, hm, rfl⟩ := Option.map_eq_some_iff.1 h
  exact ⟨by simpa using List.find?_some hm, marks_ne_nil m (List.mem_of_find?_eq_some hm)⟩

theorem first_prefix (c : Char) (cs : List Char) : (first c cs).text <+: c :: cs := by
  unfold first
  split
  · exact List.cons_prefix_cons.2 ⟨rfl, List.takeWhile_prefix _⟩
  split
  · exact numeral_prefix _
  split
  · exact List.cons_prefix_cons.2 ⟨rfl, List.takeWhile_prefix _⟩
  split
  · rename_i h
    exact h ▸ quotation_prefix cs
  split
  · exact List.cons_prefix_cons.2 ⟨rfl, List.takeWhile_prefix _⟩
  · cases hm : mark? (c :: cs) with
    | none => exact List.cons_prefix_cons.2 ⟨rfl, List.nil_prefix⟩
    | some s => exact (mark?_some hm).1

theorem first_ne_nil (c : Char) (cs : List Char) : (first c cs).text ≠ [] := by
  unfold first
  split
  · simp
  split
  · rename_i h
    exact numeral_ne_nil h
  split
  · simp
  split
  · exact quotation_ne_nil cs
  split
  · simp
  · cases hm : mark? (c :: cs) with
    | none => simp
    | some s => exact (mark?_some hm).2

end Segment

/-! ## All segments -/

/-- The segments of a text, at most `bound` of them. -/
def segmentsUpTo : Nat → List Char → List Segment
  | _, [] => []
  | 0, _ :: _ => []
  | bound + 1, c :: cs =>
    let s := Segment.first c cs
    s :: segmentsUpTo bound ((c :: cs).drop s.text.length)

/-- The segments of a text.  None is empty, so there are at most as many as characters. -/
def segments (cs : List Char) : List Segment := segmentsUpTo cs.length cs

theorem length_drop_first (c : Char) (cs : List Char) :
    ((c :: cs).drop (Segment.first c cs).text.length).length ≤ cs.length := by
  have := List.length_pos_iff.2 (Segment.first_ne_nil c cs)
  rw [List.length_drop, List.length_cons]
  omega

theorem join_segmentsUpTo (bound : Nat) (cs : List Char) (h : cs.length ≤ bound) :
    ((segmentsUpTo bound cs).map (·.text)).flatten = cs := by
  induction bound generalizing cs with
  | zero => rw [List.length_eq_zero_iff.1 (Nat.le_zero.1 h)]; rfl
  | succ bound ih =>
    cases cs with
    | nil => rfl
    | cons c cs =>
      have hp := Segment.first_prefix c cs
      rw [List.length_cons] at h
      have hl := length_drop_first c cs
      rw [segmentsUpTo, List.map_cons, List.flatten_cons, ih _ (by omega)]
      conv => rhs; rw [← List.take_append_drop (Segment.first c cs).text.length (c :: cs)]
      rw [← List.prefix_iff_eq_take.1 hp]

theorem join_segments (cs : List Char) : ((segments cs).map (·.text)).flatten = cs :=
  join_segmentsUpTo cs.length cs Nat.le.refl

end LoxLang
