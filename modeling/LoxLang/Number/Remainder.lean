import LoxLang.Number.Scale

/-!
The remainder of a division truncated toward zero, which is exact: the magnitudes are whole numbers
of units, and so is their remainder.
-/

namespace LoxLang.Number

/-- The remainder of `x` by `y`, with the sign of `x`.  It is not a number when `x` is infinite or
`y` is zero, and `x` itself when `y` is infinite. -/
def remainder (x y : Float) : Float :=
  let rx := rankOf x
  let ry := rankOf y
  if infinityRank ≤ rx || infinityRank < ry || ry = 0 then notANumber
  else if ry = infinityRank then x
  else ofRank (isNegative x) (floorRank (units rx % units ry))

end LoxLang.Number
