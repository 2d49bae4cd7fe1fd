import LoxLang.Number.Shortest

/-!
How numbers are written: the shortest numeral that reads back, always in positional notation.

There is never an exponent and no fraction on a whole number; zero keeps its sign.  Infinity is
`inf`, and not-a-number is `NaN` whatever its sign.
-/

namespace LoxLang.Number

/-- A numeral in positional notation: zeros behind the digits of a whole number, else a point with
at least one digit before it. -/
def Decimal.positional (d : Decimal) : List Char :=
  let ds := Nat.toDigits 10 d.digits
  if 0 ≤ d.exponent then
    if d.digits = 0 then ds else ds ++ List.replicate d.exponent.toNat '0'
  else
    let places := (-d.exponent).toNat
    let padded := List.replicate (places + 1 - ds.length) '0' ++ ds
    padded.take (padded.length - places) ++ '.' :: padded.drop (padded.length - places)

/-- The text of the magnitude with a given rank. -/
def magnitudeText (rank : Nat) : List Char :=
  if rank < infinityRank then (shortest rank).positional else ['i', 'n', 'f']

def toText (x : Float) : String :=
  if infinityRank < rankOf x then "NaN"
  else String.ofList (if isNegative x then '-' :: magnitudeText (rankOf x) else magnitudeText (rankOf x))

end LoxLang.Number
