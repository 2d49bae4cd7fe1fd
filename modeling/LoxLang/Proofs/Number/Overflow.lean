import LoxLang.Proofs.Number.Numeral

/-!
Numerals that are too large for a double.

A quotient is rounded to infinity from half a step above the greatest finite magnitude on
(`nearestRank_eq_infinityRank_iff`).  So the numerals that denote infinity are those of `overflow =
2 ^ 1024 - 2 ^ 970` or more (`Decimal.rank_eq_infinityRank_iff`), whether or not they are multiplied
out when they are read.
-/

namespace LoxLang.Number

/-- The midpoint between the greatest finite double and the power of two behind it. -/
def overflow : Nat := 2 ^ 1024 - 2 ^ 970

/-! ## Rounding -/

/-- Whether a quotient between the ranks `f` and `f + 1` is rounded to the even rank `p + 1` or
beyond. -/
theorem le_rounded_iff {p f num den : Nat} (hden : 0 < den) (hodd : p % 2 = 1)
    (hlow : units f * den ≤ num) (hhigh : num < units (f + 1) * den) :
    p + 1 ≤ (if 2 * num < (units f + units (f + 1)) * den then f
      else if (units f + units (f + 1)) * den < 2 * num then f + 1 else f + f % 2) ↔
      (units p + units (p + 1)) * den ≤ 2 * num := by
  have hstep := Nat.mul_lt_mul_of_pos_right (units_lt_succ p) hden
  rcases Nat.lt_trichotomy f p with hlt | rfl | hlt
  · -- the rank above the quotient is `p` at most, and `p` is no tie for it
    have hup := Nat.mul_le_mul_right den (units_strictMono.monotone (Nat.succ_le_of_lt hlt))
    rw [Nat.succ_eq_add_one] at hup
    constructor
    · intro h
      split at h
      · omega
      split at h
      · omega
      · omega
    · intro h
      rw [Nat.add_mul] at h
      omega
  · constructor
    · intro h
      by_contra hn
      rw [if_pos (Nat.lt_of_not_le hn)] at h
      omega
    · intro h
      rw [if_neg (Nat.not_lt.2 h)]
      split
      · exact Nat.le_refl _
      · omega
  · -- the rank below the quotient is `p + 1` at least
    have hdown := Nat.mul_le_mul_right den (units_strictMono.monotone (Nat.succ_le_of_lt hlt))
    rw [Nat.succ_eq_add_one] at hdown
    constructor
    · intro _
      rw [Nat.add_mul]
      omega
    · intro _
      split
      · exact hlt
      split
      · omega
      · omega

theorem nearestRank_eq_infinityRank_iff {num den : Nat} (hden : 0 < den) :
    nearestRank num den = infinityRank ↔
      (units (infinityRank - 1) + units infinityRank) * den ≤ 2 * num := by
  have hlow : units (floorRank (num / den)) * den ≤ num :=
    (Nat.le_div_iff_mul_le hden).1 (floorRank_le _)
  have hhigh : num < units (floorRank (num / den) + 1) * den :=
    (Nat.div_lt_iff_lt_mul hden).1 (lt_floorRank_succ _)
  have hp : infinityRank - 1 + 1 = infinityRank := by decide
  have h := le_rounded_iff hden (p := infinityRank - 1) (by decide) hlow hhigh
  rw [hp] at h
  rw [nearestRank_eq rfl, min_eq_right_iff]
  exact h

theorem units_infinityRank_pred : units (infinityRank - 1) = 2 ^ 2098 - 2 ^ 2045 := by
  have he : infinityRank - 1 = (2045 + 1) * 2 ^ 52 + (2 ^ 52 - 1) := by decide
  rw [he, units_split 2045 (2 ^ 52 - 1) (by decide)]
  decide +kernel

/-! ## Numerals -/

theorem midpoint_eq : units (infinityRank - 1) + units infinityRank = overflow * 2 ^ 1075 := by
  rw [units_infinityRank_pred, units_infinityRank]
  decide +kernel

namespace Decimal

/-- A numeral is read as infinity just if it is at least the midpoint behind the finite doubles. -/
theorem rank_eq_infinityRank_iff (d : Decimal) :
    d.rank = infinityRank ↔ overflow * d.denominator ≤ d.numerator := by
  have hden := d.denominator_pos
  have hpos : 0 < overflow := by decide +kernel
  unfold rank
  split
  · rename_i hzero
    have hnum : d.numerator = 0 := by rw [numerator, hzero, Nat.zero_mul]
    have hlt := Nat.mul_pos hpos hden
    constructor
    · intro h
      exact absurd h (by decide)
    · intro h
      omega
  split
  · rename_i hdigits hexp
    obtain ⟨hone, hnum⟩ := numerator_of_large (Nat.pos_of_ne_zero hdigits) hexp
    have hbig : overflow ≤ 10 ^ 310 := by decide +kernel
    constructor
    · intro _
      rw [hone, Nat.mul_one]
      exact hbig.trans hnum
    · intro _
      rfl
  split
  · rename_i hdigits hexp hsmall
    have htwice : d.numerator * unitsPerOne + d.numerator * unitsPerOne < d.denominator :=
      Nat.two_mul _ ▸ twice_lt_of_small hsmall
    have hnum : d.numerator ≤ d.numerator * unitsPerOne :=
      Nat.le_mul_of_pos_right _ unitsPerOne_pos
    have hover : d.denominator ≤ overflow * d.denominator := Nat.le_mul_of_pos_left _ hpos
    constructor
    · intro h
      exact absurd h (by decide)
    · intro h
      omega
  · rw [nearestRank_eq_infinityRank_iff hden, midpoint_eq]
    have hl : overflow * 2 ^ 1075 * d.denominator = overflow * d.denominator * 2 ^ 1075 :=
      Nat.mul_right_comm _ _ _
    have htwice : 2 * 2 ^ 1074 = 2 ^ 1075 := by decide +kernel
    have hr : 2 * (d.numerator * 2 ^ 1074) = d.numerator * 2 ^ 1075 := by
      rw [Nat.mul_left_comm, htwice]
    rw [hl, hr]
    exact Nat.mul_le_mul_right_iff (Nat.two_pow_pos 1075)

end Decimal

end LoxLang.Number
