/-!
How similar two words are: by the characters that occur in both at about the same place, and by how
many of these are out of order.

With `m` characters in common and `t` half the number of those out of order, the similarity is the
mean of `m / |a|`, `m / |b|` and `(m - t) / m`.  It is computed as an exact fraction.
-/

namespace LoxLang.Text

/-- Takes the first character equal to `c` among those from position `low` up to `high`, the taken
ones aside; the taken characters are marked. -/
def takeNear (c : Char) (low high : Nat) : Nat → List (Char × Bool) → Option (List (Char × Bool))
  | _, [] => none
  | i, (d, taken) :: rest =>
    if low ≤ i && i < high && d == c && !taken then some ((d, true) :: rest)
    else (takeNear c low high (i + 1) rest).map ((d, taken) :: ·)

/-- The characters of the first word that have a partner in the second, and the second word with
the partners marked. -/
def partners (range : Nat) : Nat → List Char → List (Char × Bool) → List Char × List (Char × Bool)
  | _, [], marked => ([], marked)
  | i, c :: cs, marked =>
    match takeNear c (i - range) (i + range + 1) 0 marked with
    | some marked =>
      let (found, marked) := partners range (i + 1) cs marked
      (c :: found, marked)
    | none => partners range (i + 1) cs marked

/-- The similarity of two words as a numerator and a denominator; `0 / 1` for words that have
nothing in common. -/
def similarity (a b : List Char) : Nat × Nat :=
  let range := max a.length b.length / 2 - 1
  let (found, marked) := partners range 0 a (b.map (·, false))
  let m := found.length
  let inOrder := (marked.filter (·.2)).map (·.1)
  let t := ((found.zip inOrder).filter fun p => p.1 != p.2).length / 2
  if m = 0 then (0, 1)
  else
    (m * m * b.length + m * m * a.length + (m - t) * a.length * b.length,
      3 * m * a.length * b.length)

/-- The most similar of some words, the last of several, if its similarity is above seven tenths. -/
def mostSimilar? (word : String) (candidates : List String) : Option String :=
  let rated := candidates.map fun c => (c, similarity word.toList c.toList)
  let close := rated.filter fun r => 7 * r.2.2 < 10 * r.2.1
  (close.foldl (fun (best : Option (String × Nat × Nat)) r =>
    match best with
    | some b => if r.2.1 * b.2.2 < b.2.1 * r.2.2 then some b else some r
    | none => some r) none).map (·.1)

end LoxLang.Text
