import LoxLang.Number.Scale

/-!
Decimal numerals: `digits * 10 ^ exponent`, the double nearest to one, and the texts that denote
them.

`Decimal.rank` is correctly rounded for every numeral, however long and whatever its exponent.  A
numeral text is digits with an optional point and an optional power of ten; infinity and
not-a-number are written as words.
-/

namespace LoxLang.Number

structure Decimal where
  digits : Nat
  exponent : Int
  deriving DecidableEq, Repr

namespace Decimal

/-- Numerator of the numeral as a fraction over `denominator`. -/
def numerator (d : Decimal) : Nat := d.digits * Nat.pow 10 d.exponent.toNat

def denominator (d : Decimal) : Nat := Nat.pow 10 (-d.exponent).toNat

/-- The rank of the double nearest to the numeral.  Numerals that are out of range by their
exponent alone are not multiplied out: with `10 ^ 310` a positive one is above every finite
double, and `digits * 10 ^ -k` is below `2 ^ (log2 digits + 1 - 3 * k)`. -/
def rank (d : Decimal) : Nat :=
  if d.digits = 0 then 0
  else if 310 ≤ d.exponent then infinityRank
  else if 3 * d.exponent + d.digits.log2 < -1080 then 0
  else nearestRank (d.numerator * 2 ^ 1074) d.denominator

end Decimal

/-! ## Numeral texts -/

/-- The number that a run of digits denotes. -/
def digitsValue (cs : List Char) : Nat := Nat.ofDigitChars 10 cs 0

/-- The power of ten at the end of a numeral: nothing, or `e` and a whole number. -/
def exponentOf? : List Char → Option Int
  | [] => some 0
  | e :: cs =>
    let (negative, ds) := match cs with
      | '-' :: ds => (true, ds)
      | '+' :: ds => (false, ds)
      | ds => (false, ds)
    if (e = 'e' || e = 'E') && !ds.isEmpty && ds.all Char.isDigit then
      some (if negative then -(digitsValue ds : Int) else digitsValue ds)
    else none

/-- The numeral that a text without a sign denotes.  It needs a digit before or behind the
point. -/
def decimalOf? (cs : List Char) : Option Decimal :=
  let whole := cs.takeWhile Char.isDigit
  let (fraction, rest) := match cs.dropWhile Char.isDigit with
    | '.' :: r => (r.takeWhile Char.isDigit, r.dropWhile Char.isDigit)
    | r => ([], r)
  if whole.isEmpty && fraction.isEmpty then none
  else (exponentOf? rest).map fun e => ⟨digitsValue (whole ++ fraction), e - fraction.length⟩

/-- The double that a text denotes, if it denotes one: an optional sign, then a numeral or, in any
letter case, `inf`, `infinity` or `nan`. -/
def ofText? (s : String) : Option Float :=
  let (negative, cs) := match s.toList with
    | '-' :: cs => (true, cs)
    | '+' :: cs => (false, cs)
    | cs => (false, cs)
  let word := cs.map Char.toLower
  if word = "inf".toList || word = "infinity".toList then some (ofRank negative infinityRank)
  else if word = "nan".toList then some notANumber
  else (decimalOf? cs).map fun d => ofRank negative d.rank

end LoxLang.Number
