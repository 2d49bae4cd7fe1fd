import LoxLang.Number.Decimal

/-!
The shortest decimal numeral of a double: the fewest digits that read back to it, and of those the
numeral nearest to it.

The numerals that read back are those between the two midpoints to the neighbouring ranks, the
midpoints included when the rank is even.  On the grid of multiples of `10 ^ k` only the two grid
points around the value need to be tried, and the coarsest grid that has such a point gives the
fewest digits.  Of two points that read back the nearer is taken, and the upper one of two that are
equally near.
-/

namespace LoxLang.Number

/-- Whether `d` lies between the midpoints around a positive rank.  Both midpoints are compared
doubled, that is in units of `2 ^ -1075`. -/
def readsBack (rank : Nat) (d : Decimal) : Bool :=
  let low := (units (rank - 1) + units rank) * d.denominator
  let high := (units rank + units (rank + 1)) * d.denominator
  let twice := 2 * (d.numerator * 2 ^ 1074)
  if rank % 2 = 0 then low ≤ twice && twice ≤ high else low < twice && twice < high

/-- The multiple of `10 ^ k` at or below the magnitude of a rank. -/
def gridBelow (rank : Nat) (k : Int) : Decimal :=
  let step : Decimal := ⟨1, k⟩
  ⟨units rank * step.denominator / (step.numerator * 2 ^ 1074), k⟩

/-- Whether the grid point below the value is nearer to it than the next one. -/
def nearerBelow (rank : Nat) (below : Decimal) : Bool :=
  let above : Decimal := ⟨below.digits + 1, below.exponent⟩
  2 * (units rank * below.denominator) < (below.numerator + above.numerator) * 2 ^ 1074

/-- The grid point of `10 ^ k` to print, if one of the two around the value reads back. -/
def onGrid? (rank : Nat) (k : Int) : Option Decimal :=
  let below := gridBelow rank k
  let above : Decimal := ⟨below.digits + 1, k⟩
  match readsBack rank below, readsBack rank above with
  | true, true => some (if nearerBelow rank below then below else above)
  | true, false => some below
  | false, true => some above
  | false, false => none

/-- Tries the grids from `10 ^ k` on downwards, `steps` of them. -/
def searchGrids (rank : Nat) : Nat → Int → Decimal
  | 0, k => gridBelow rank k
  | steps + 1, k => (onGrid? rank k).getD (searchGrids rank steps (k - 1))

/-- An exponent whose power of ten is above the magnitude of a rank: `0.30103` is just above the
decimal logarithm of two. -/
def topExponent (rank : Nat) : Int :=
  ((((units rank).log2 : Int) - 1073) * 30103).fdiv 100000 + 1

/-- The shortest numeral of a finite rank. -/
def shortest (rank : Nat) : Decimal :=
  if rank = 0 then ⟨0, 0⟩ else searchGrids rank 24 (topExponent rank)

end LoxLang.Number
