import LoxLang.Number.Scale
import Mathlib.Order.Monotone.Basic
import Mathlib.Tactic.Ring

/-!
Ranks and magnitudes.

`units` increases strictly from rank to rank, by `2 ^ (rank / 2 ^ 52 - 1)` (`units_succ`), and
`floorRank` is its inverse (`floorRank_le`, `lt_floorRank_succ`).  A quotient that lies between the
midpoints around a rank is rounded to that rank (`nearestRank_of_between`), the midpoints included
when the rank is even.
-/

namespace LoxLang.Number

/-! ## Magnitudes -/

theorem units_of_lt {r : Nat} (h : r < 2 ^ 52) : units r = r := by
  rw [units, if_pos h]

/-- A rank taken apart into the exponent and the fraction of the double. -/
theorem units_split (q m : Nat) (hm : m < 2 ^ 52) :
    units ((q + 1) * 2 ^ 52 + m) = (2 ^ 52 + m) * 2 ^ q := by
  have hlt : ¬ (q + 1) * 2 ^ 52 + m < 2 ^ 52 := by omega
  have hmod : ((q + 1) * 2 ^ 52 + m) % 2 ^ 52 = m := by
    rw [Nat.mul_add_mod', Nat.mod_eq_of_lt hm]
  have hdiv : ((q + 1) * 2 ^ 52 + m) / 2 ^ 52 = q + 1 := by omega
  rw [units, if_neg hlt, hmod, hdiv, Nat.add_sub_cancel, Nat.shiftLeft_eq]

/-- The step from a rank to the next one. -/
theorem units_succ (r : Nat) : units (r + 1) = units r + 2 ^ (r / 2 ^ 52 - 1) := by
  by_cases h : r < 2 ^ 52
  · have hdiv : r / 2 ^ 52 - 1 = 0 := by omega
    rw [units_of_lt h, hdiv, Nat.pow_zero]
    by_cases h' : r + 1 < 2 ^ 52
    · exact units_of_lt h'
    · have he : r + 1 = (0 + 1) * 2 ^ 52 + 0 := by omega
      rw [he, units_split 0 0 (by decide)]
      omega
  · obtain ⟨q, m, hm, rfl⟩ : ∃ q m, m < 2 ^ 52 ∧ r = (q + 1) * 2 ^ 52 + m := by
      refine ⟨r / 2 ^ 52 - 1, r % 2 ^ 52, Nat.mod_lt _ (by decide), ?_⟩
      omega
    have hdiv : ((q + 1) * 2 ^ 52 + m) / 2 ^ 52 - 1 = q := by omega
    rw [hdiv, units_split q m hm]
    by_cases hm' : m + 1 < 2 ^ 52
    · rw [Nat.add_assoc, units_split q (m + 1) hm']
      ring
    · have he : (q + 1) * 2 ^ 52 + m + 1 = (q + 1 + 1) * 2 ^ 52 + 0 := by omega
      have hm'' : 2 ^ 52 + m + 1 = 2 ^ 53 := by omega
      rw [he, units_split (q + 1) 0 (by decide), Nat.add_zero, ← Nat.succ_mul, Nat.succ_eq_add_one,
        hm'', Nat.pow_succ]
      ring

theorem units_lt_succ (r : Nat) : units r < units (r + 1) := by
  rw [units_succ]
  have := Nat.two_pow_pos (r / 2 ^ 52 - 1)
  omega

theorem units_strictMono : StrictMono units := strictMono_nat_of_lt_succ units_lt_succ

theorem units_zero : units 0 = 0 := rfl

theorem units_pos {r : Nat} (h : 0 < r) : 0 < units r := by
  have := units_strictMono h
  rwa [units_zero] at this

theorem units_infinityRank : units infinityRank = 2 ^ 2098 := by
  have he : infinityRank = (2046 + 1) * 2 ^ 52 + 0 := by decide
  rw [he, units_split 2046 0 (by decide)]
  decide +kernel

/-! ## The rank at a magnitude -/

/-- A magnitude of 53 bits or more is between two multiples of its last place. -/
theorem floorRank_split {n : Nat} (h : 2 ^ 52 ≤ n) :
    ∃ q m, m < 2 ^ 52 ∧ floorRank n = (q + 1) * 2 ^ 52 + m ∧
      (2 ^ 52 + m) * 2 ^ q ≤ n ∧ n < (2 ^ 52 + m + 1) * 2 ^ q := by
  have hn : n ≠ 0 := by omega
  have hlog : 52 ≤ n.log2 := (Nat.le_log2 hn).2 h
  obtain ⟨q, hq⟩ : ∃ q, n.log2 = 52 + q := ⟨n.log2 - 52, by omega⟩
  have hpow : 2 ^ (52 + q) = 2 ^ 52 * 2 ^ q := Nat.pow_add 2 52 q
  have hlow : 2 ^ 52 * 2 ^ q ≤ n := by
    rw [← hpow, ← hq]
    exact Nat.log2_self_le hn
  have hhigh : n < 2 ^ 53 * 2 ^ q := by
    have := Nat.lt_log2_self (n := n)
    rw [hq, Nat.add_right_comm, Nat.pow_add] at this
    exact this
  have hpos := Nat.two_pow_pos q
  have hdivlow : 2 ^ 52 ≤ n / 2 ^ q := (Nat.le_div_iff_mul_le hpos).2 hlow
  have hdivhigh : n / 2 ^ q < 2 ^ 53 := (Nat.div_lt_iff_lt_mul hpos).2 hhigh
  refine ⟨q, n / 2 ^ q - 2 ^ 52, by omega, ?_, ?_, ?_⟩
  · have hsub : n.log2 - 52 = q := by omega
    rw [floorRank, if_neg (by omega), hsub, Nat.shiftRight_eq_div_pow]
    omega
  · rw [Nat.add_sub_cancel' hdivlow]
    exact Nat.div_mul_le_self n (2 ^ q)
  · rw [Nat.add_sub_cancel' hdivlow]
    exact Nat.lt_mul_of_div_lt (Nat.lt_succ_self _) hpos

theorem floorRank_le (n : Nat) : units (floorRank n) ≤ n := by
  by_cases h : n < 2 ^ 52
  · rw [floorRank, if_pos h, units_of_lt h]
  · obtain ⟨q, m, hm, he, hlow, -⟩ := floorRank_split (Nat.le_of_not_lt h)
    rw [he, units_split q m hm]
    exact hlow

theorem lt_floorRank_succ (n : Nat) : n < units (floorRank n + 1) := by
  rw [units_succ]
  by_cases h : n < 2 ^ 52
  · rw [floorRank, if_pos h, units_of_lt h]
    have := Nat.two_pow_pos (n / 2 ^ 52 - 1)
    omega
  · obtain ⟨q, m, hm, he, -, hhigh⟩ := floorRank_split (Nat.le_of_not_lt h)
    have hdiv : ((q + 1) * 2 ^ 52 + m) / 2 ^ 52 - 1 = q := by omega
    rw [he, units_split q m hm, hdiv, ← Nat.succ_mul]
    exact hhigh

/-! ## Rounding -/

theorem nearestRank_eq {num den f : Nat} (h : floorRank (num / den) = f) :
    nearestRank num den =
      min (if 2 * num < (units f + units (f + 1)) * den then f
        else if (units f + units (f + 1)) * den < 2 * num then f + 1 else f + f % 2)
        infinityRank := by
  subst h
  rw [Nat.mul_comm (_ + _) den]
  rfl

/-- A quotient within half a step of a rank is rounded to it; one exactly half a step away is if the
rank is even. -/
theorem nearestRank_of_between {r num den : Nat} (hden : 0 < den) (hr : 0 < r)
    (hfinite : r < infinityRank) (hlow : (units (r - 1) + units r) * den ≤ 2 * num)
    (hhigh : 2 * num ≤ (units r + units (r + 1)) * den)
    (hlow' : (units (r - 1) + units r) * den = 2 * num → r % 2 = 0)
    (hhigh' : 2 * num = (units r + units (r + 1)) * den → r % 2 = 0) :
    nearestRank num den = r := by
  obtain ⟨p, rfl⟩ : ∃ p, r = p + 1 := ⟨r - 1, by omega⟩
  rw [Nat.add_sub_cancel] at hlow hlow'
  have hfloor := floorRank_le (num / den)
  have hceil := lt_floorRank_succ (num / den)
  have hnum : units (floorRank (num / den)) * den ≤ num :=
    (Nat.le_div_iff_mul_le hden).1 hfloor
  have hnum' : num < units (floorRank (num / den) + 1) * den :=
    (Nat.div_lt_iff_lt_mul hden).1 hceil
  generalize hf : floorRank (num / den) = f at hnum hnum'
  rw [nearestRank_eq hf]
  have hle : f ≤ p + 1 := by
    by_contra hlt
    have hu : units (p + 1 + 1) ≤ units f := units_strictMono.monotone (by omega)
    have hs := Nat.mul_lt_mul_of_pos_right (units_lt_succ (p + 1)) hden
    have hu' := Nat.mul_le_mul_right den hu
    rw [Nat.add_mul] at hhigh
    omega
  have hge : p ≤ f := by
    by_contra hlt
    have hu : units (f + 1) ≤ units p := units_strictMono.monotone (by omega)
    have hs := Nat.mul_lt_mul_of_pos_right (units_lt_succ p) hden
    have hu' := Nat.mul_le_mul_right den hu
    rw [Nat.add_mul] at hlow
    omega
  have hround : (if 2 * num < (units f + units (f + 1)) * den then f
      else if (units f + units (f + 1)) * den < 2 * num then f + 1 else f + f % 2) = p + 1 := by
    rcases Nat.eq_or_lt_of_le hge with rfl | hlt
    · rw [if_neg (Nat.not_lt.2 hlow)]
      split
      · rfl
      · rename_i hn
        have := hlow' (Nat.le_antisymm hlow (Nat.le_of_not_lt hn))
        omega
    · obtain rfl : f = p + 1 := Nat.le_antisymm hle hlt
      split
      · rfl
      · rename_i hn
        rw [if_neg (Nat.not_lt.2 hhigh)]
        have := hhigh' (Nat.le_antisymm hhigh (Nat.le_of_not_lt hn))
        omega
  rw [hround]
  exact Nat.min_eq_left (Nat.le_of_lt hfinite)

end LoxLang.Number
