/-!
The scale of double-precision numbers.

A finite magnitude is a whole number of units of `2 ^ -1074`, the least positive double.  The bits
of a double without its sign number the magnitudes in increasing order; that number is called its
rank here.  `units` is the magnitude of a rank, `floorRank` the greatest rank whose magnitude is
not above a given one, and `nearestRank` rounds an exact quotient to the nearest rank, a tie going
to the even one.  Reading, printing and the remainder all work on this scale, in natural numbers.
-/

namespace LoxLang.Number

-- Powers of natural numbers are those of the core library, whatever else is imported.
attribute [default_instance 10001] instPowNat

/-- The rank behind the greatest finite one. -/
def infinityRank : Nat := 0x7ff * 2 ^ 52

/-- The magnitude of a rank, in units of `2 ^ -1074`. -/
def units (rank : Nat) : Nat :=
  if rank < 2 ^ 52 then rank else (2 ^ 52 + rank % 2 ^ 52) <<< (rank / 2 ^ 52 - 1)

/-- The greatest rank of at most `n` units. -/
def floorRank (n : Nat) : Nat :=
  if n < 2 ^ 52 then n else (n.log2 - 52) * 2 ^ 52 + n >>> (n.log2 - 52)

/-- The rank nearest to `num / den` units, the even one of two that are equally near.  Everything
from half a step above the greatest finite magnitude has the rank of infinity. -/
def nearestRank (num den : Nat) : Nat :=
  let r := floorRank (num / den)
  let twice := 2 * num
  let middle := den * (units r + units (r + 1))
  let rounded := if twice < middle then r else if middle < twice then r + 1 else r + r % 2
  min rounded infinityRank

/-! ## Doubles and their ranks -/

def rankOf (x : Float) : Nat := x.toBits.toNat % 2 ^ 63

def isNegative (x : Float) : Bool := 2 ^ 63 ≤ x.toBits.toNat

def ofRank (negative : Bool) (rank : Nat) : Float :=
  Float.ofBits (UInt64.ofNat (if negative then 2 ^ 63 + rank else rank))

def isFinite (x : Float) : Bool := rankOf x < infinityRank

def notANumber : Float := Float.ofBits 0x7ff8000000000000

end LoxLang.Number
