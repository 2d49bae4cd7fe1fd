import LoxLang.Number.Shortest
import LoxLang.Number.Decimal
import LoxLang.Proofs.Number.Scale

/-!
The shortest numeral of a finite rank reads back to it.

What `readsBack` accepts is rounded to the rank (`rank_of_readsBack`).  The search for such a
numeral succeeds: twenty-three grids below the first one the steps of the grid are less than half
the step to the next rank, so the grid point above the value reads back at the latest there
(`fine_enough`, `onGrid?_of_fine`).
-/

namespace LoxLang.Number

/-! ## Numerals that read back -/

variable {r : Nat} {d : Decimal}

/-- How many units make one.  The number is too large to be multiplied out by accident. -/
@[irreducible]
def unitsPerOne : Nat := 2 ^ 1074

theorem two_mul_unitsPerOne : 2 * unitsPerOne = 2 ^ 1075 := by
  unfold unitsPerOne
  decide +kernel

theorem unitsPerOne_pos : 0 < unitsPerOne := by
  have := two_mul_unitsPerOne
  have := Nat.two_pow_pos 1075
  omega

/-- Twice the numeral, on the scale of the units of a rank. -/
def Decimal.twice (d : Decimal) : Nat := 2 * (d.numerator * unitsPerOne)

theorem Decimal.numerator_eq (d : Decimal) : d.numerator = d.digits * 10 ^ d.exponent.toNat := rfl

theorem Decimal.denominator_eq (d : Decimal) : d.denominator = 10 ^ (-d.exponent).toNat := rfl

theorem Decimal.denominator_pos (d : Decimal) : 0 < d.denominator :=
  Nat.pow_pos (by decide)

/-- A numeral that is out of range by its exponent is a great whole number. -/
theorem Decimal.numerator_of_large (hdigits : 0 < d.digits) (hexp : 310 ≤ d.exponent) :
    d.denominator = 1 ∧ 10 ^ 310 ≤ d.numerator := by
  have hden : (-d.exponent).toNat = 0 := by omega
  have hle : 310 ≤ d.exponent.toNat := by omega
  refine ⟨by rw [denominator_eq, hden, Nat.pow_zero], ?_⟩
  have hpow := Nat.pow_le_pow_right (n := 10) (by decide) hle
  exact Nat.le_trans hpow (Nat.le_mul_of_pos_left _ hdigits)

/-- A numeral that is too small by its exponent is less than half of the least magnitude. -/
theorem Decimal.twice_lt_of_small (h : 3 * d.exponent + d.digits.log2 < -1080) :
    d.twice < d.denominator := by
  have hnum : d.exponent.toNat = 0 := by omega
  have hle : d.digits.log2 + 1 + 1075 ≤ 3 * (-d.exponent).toNat := by omega
  calc d.twice = d.digits * (2 * unitsPerOne) := by
        rw [twice, numerator_eq, hnum, Nat.pow_zero, Nat.mul_one, Nat.mul_left_comm]
    _ < 2 ^ (d.digits.log2 + 1 + 1075) := by
        rw [Nat.pow_add, two_mul_unitsPerOne]
        exact Nat.mul_lt_mul_of_pos_right Nat.lt_log2_self (Nat.two_pow_pos 1075)
    _ ≤ 2 ^ (3 * (-d.exponent).toNat) := Nat.pow_le_pow_right (by decide) hle
    _ = 8 ^ (-d.exponent).toNat := Nat.pow_mul 2 3 _
    _ ≤ d.denominator := Nat.pow_le_pow_left (by decide) _

theorem readsBack_iff :
    readsBack r d = true ↔
      (units (r - 1) + units r) * d.denominator ≤ d.twice ∧
        d.twice ≤ (units r + units (r + 1)) * d.denominator ∧
        ((units (r - 1) + units r) * d.denominator = d.twice → r % 2 = 0) ∧
        (d.twice = (units r + units (r + 1)) * d.denominator → r % 2 = 0) := by
  have hread : readsBack r d =
      if r % 2 = 0 then decide ((units (r - 1) + units r) * d.denominator ≤ d.twice) &&
        decide (d.twice ≤ (units r + units (r + 1)) * d.denominator)
      else decide ((units (r - 1) + units r) * d.denominator < d.twice) &&
        decide (d.twice < (units r + units (r + 1)) * d.denominator) := by
    unfold readsBack Decimal.twice unitsPerOne
    rfl
  rw [hread]
  split
  · rename_i he
    simp only [Bool.and_eq_true, decide_eq_true_eq, he, implies_true, and_true]
  · rename_i ho
    simp only [Bool.and_eq_true, decide_eq_true_eq, ho, imp_false]
    omega

/-- Whether a numeral reads back depends on its value only. -/
theorem readsBack_congr {d' : Decimal} (hn : d'.numerator = d.numerator)
    (hd : d'.denominator = d.denominator) (h : readsBack r d = true) : readsBack r d' = true := by
  rw [readsBack_iff] at h ⊢
  unfold Decimal.twice at h ⊢
  rwa [hn, hd]

theorem digits_pos_of_readsBack (hr : 0 < r) (h : readsBack r d = true) : 0 < d.digits := by
  obtain ⟨hlow, -, -, -⟩ := readsBack_iff.1 h
  have hunits := units_pos hr
  have hpos : 0 < (units (r - 1) + units r) * d.denominator :=
    Nat.mul_pos (by omega) d.denominator_pos
  by_contra hz
  have hd : d.digits = 0 := by omega
  have htwice : d.twice = 0 := by
    rw [Decimal.twice, Decimal.numerator_eq, hd, Nat.zero_mul, Nat.zero_mul, Nat.mul_zero]
  omega

/-- A numeral that reads back to a finite rank is not out of range by its exponent. -/
theorem exponent_lt_of_readsBack (hr : 0 < r) (hf : r < infinityRank) (h : readsBack r d = true) :
    d.exponent < 310 := by
  by_contra hlarge
  obtain ⟨-, hhigh, -, -⟩ := readsBack_iff.1 h
  obtain ⟨hden, hpow⟩ := Decimal.numerator_of_large (digits_pos_of_readsBack hr h) (by omega)
  have hunits : units r + units (r + 1) ≤ 2 * 2 ^ 2098 := by
    have h1 : units r ≤ units infinityRank := units_strictMono.monotone (Nat.le_of_lt hf)
    have h2 : units (r + 1) ≤ units infinityRank := units_strictMono.monotone hf
    rw [units_infinityRank] at h1 h2
    omega
  have hbig : 2 ^ 2098 < 10 ^ 310 * unitsPerOne := by
    unfold unitsPerOne
    decide +kernel
  have hmul := Nat.mul_le_mul_right unitsPerOne hpow
  rw [hden, Nat.mul_one, Decimal.twice] at hhigh
  omega

/-- Nor is it too small. -/
theorem not_tiny_of_readsBack (hr : 0 < r) (h : readsBack r d = true) :
    ¬ 3 * d.exponent + d.digits.log2 < -1080 := by
  intro hsmall
  obtain ⟨hlow, -, -, -⟩ := readsBack_iff.1 h
  have hunits := units_pos hr
  have hden : d.denominator ≤ (units (r - 1) + units r) * d.denominator :=
    Nat.le_mul_of_pos_left _ (by omega)
  have htwice := Decimal.twice_lt_of_small hsmall
  omega

theorem rank_of_readsBack (hr : 0 < r) (hf : r < infinityRank) (h : readsBack r d = true) :
    d.rank = r := by
  have hdigits := digits_pos_of_readsBack hr h
  have hexp := exponent_lt_of_readsBack hr hf h
  have htiny := not_tiny_of_readsBack hr h
  obtain ⟨hlow, hhigh, hlow', hhigh'⟩ := readsBack_iff.1 h
  rw [Decimal.rank, if_neg (by omega), if_neg (by omega), if_neg htiny]
  unfold Decimal.twice unitsPerOne at hlow hhigh hlow' hhigh'
  exact nearestRank_of_between d.denominator_pos hr hf hlow hhigh hlow' hhigh'

/-! ## The search -/

/-- The step of the grid of `10 ^ k`, over the denominator of its numerals. -/
def gridStep (k : Int) : Nat := 10 ^ k.toNat * unitsPerOne

theorem gridStep_pos (k : Int) : 0 < gridStep k :=
  Nat.mul_pos (Nat.pow_pos (by decide)) unitsPerOne_pos

theorem digits_gridBelow (r : Nat) (k : Int) :
    (gridBelow r k).digits = units r * 10 ^ (-k).toNat / gridStep k := by
  unfold gridBelow gridStep unitsPerOne
  dsimp only
  rw [Decimal.numerator_eq, Decimal.denominator_eq, Nat.one_mul]

/-- On a grid whose step is less than half the step to the next rank, the grid point above the value
reads back. -/
theorem readsBack_above {k : Int} (hr : 0 < r)
    (hfine : 2 * gridStep k < 2 ^ (r / 2 ^ 52 - 1) * 10 ^ (-k).toNat) :
    readsBack r ⟨(gridBelow r k).digits + 1, k⟩ = true := by
  have hstep := gridStep_pos k
  have hbelow : (gridBelow r k).digits * gridStep k ≤ units r * 10 ^ (-k).toNat := by
    rw [digits_gridBelow]
    exact Nat.div_mul_le_self _ _
  have habove : units r * 10 ^ (-k).toNat < ((gridBelow r k).digits + 1) * gridStep k := by
    rw [digits_gridBelow]
    exact Nat.lt_mul_of_div_lt (Nat.lt_succ_self _) hstep
  generalize (gridBelow r k).digits = n at habove hbelow
  have htwice : Decimal.twice ⟨n + 1, k⟩ = 2 * ((n + 1) * gridStep k) := by
    rw [Decimal.twice, Decimal.numerator_eq, Nat.mul_assoc, gridStep]
  have hden : Decimal.denominator ⟨n + 1, k⟩ = 10 ^ (-k).toNat := rfl
  have hlt : units (r - 1) < units r := units_strictMono (by omega)
  have hmul := Nat.mul_lt_mul_of_pos_right hlt (Nat.pow_pos (by decide) : 0 < 10 ^ (-k).toNat)
  have hlow : (units (r - 1) + units r) * 10 ^ (-k).toNat < 2 * ((n + 1) * gridStep k) := by
    rw [Nat.add_mul]
    omega
  have hhigh : 2 * ((n + 1) * gridStep k) < (units r + units (r + 1)) * 10 ^ (-k).toNat := by
    have hnext : (n + 1) * gridStep k = n * gridStep k + gridStep k := Nat.succ_mul n _
    rw [units_succ, Nat.add_mul (units r), Nat.add_mul (units r)]
    omega
  rw [readsBack_iff, hden, htwice]
  exact ⟨Nat.le_of_lt hlow, Nat.le_of_lt hhigh, fun he => absurd he (Nat.ne_of_lt hlow),
    fun he => absurd he (Nat.ne_of_lt hhigh)⟩

theorem readsBack_of_onGrid? {k : Int} (h : onGrid? r k = some d) : readsBack r d = true := by
  unfold onGrid? at h
  dsimp only at h
  split at h
  · rename_i hb ha
    split at h
    · exact Option.some.inj h ▸ hb
    · exact Option.some.inj h ▸ ha
  · rename_i hb _
    exact Option.some.inj h ▸ hb
  · rename_i _ ha
    exact Option.some.inj h ▸ ha
  · exact absurd h (Option.some_ne_none d).symm

theorem onGrid?_of_above {k : Int} (h : readsBack r ⟨(gridBelow r k).digits + 1, k⟩ = true) :
    (onGrid? r k).isSome := by
  unfold onGrid?
  dsimp only
  rw [h]
  cases readsBack r (gridBelow r k) <;> rfl

theorem readsBack_searchGrids (steps : Nat) (k : Int)
    (h : ∃ j : Nat, j < steps ∧ (onGrid? r (k - j)).isSome) :
    readsBack r (searchGrids r steps k) = true := by
  induction steps generalizing k with
  | zero =>
    obtain ⟨j, hj, -⟩ := h
    exact absurd hj (Nat.not_lt_zero j)
  | succ steps ih =>
    rw [searchGrids]
    cases hg : onGrid? r k with
    | some d => exact readsBack_of_onGrid? hg
    | none =>
      obtain ⟨j, hj, hs⟩ := h
      have hne : j ≠ 0 := by
        rintro rfl
        rw [Int.natCast_zero, Int.sub_zero, hg] at hs
        cases hs
      refine ih (k - 1) ⟨j - 1, by omega, ?_⟩
      have he : k - 1 - ((j - 1 : Nat) : Int) = k - j := by omega
      rwa [he]

/-! ## Fine grids -/

/-- The first grid tried, in terms of the exponent of the double. -/
theorem topExponent_le (hr : 0 < r) :
    (topExponent r - 1) * 100000 ≤ (((r / 2 ^ 52 - 1 : Nat) : Int) - 1021) * 30103 := by
  have hlog : (units r).log2 ≤ 52 + (r / 2 ^ 52 - 1) := by
    have hn : units r ≠ 0 := Nat.ne_of_gt (units_pos hr)
    refine Nat.le_of_lt_succ ((Nat.log2_lt hn).2 ?_)
    by_cases h : r < 2 ^ 52
    · have hdiv : r / 2 ^ 52 - 1 = 0 := by omega
      rw [units_of_lt h, hdiv]
      exact Nat.lt_trans h (by decide)
    · obtain ⟨q, m, hm, rfl⟩ : ∃ q m, m < 2 ^ 52 ∧ r = (q + 1) * 2 ^ 52 + m := by
        refine ⟨r / 2 ^ 52 - 1, r % 2 ^ 52, Nat.mod_lt _ (by decide), ?_⟩
        omega
      have hdiv : ((q + 1) * 2 ^ 52 + m) / 2 ^ 52 - 1 = q := by omega
      have hpow : 2 ^ (52 + q).succ = 2 ^ 53 * 2 ^ q := by
        rw [Nat.succ_eq_add_one, Nat.add_right_comm, Nat.pow_add]
      rw [hdiv, units_split q m hm, hpow]
      exact Nat.mul_lt_mul_of_pos_right (by omega) (Nat.two_pow_pos q)
  rw [topExponent, Int.fdiv_eq_ediv_of_nonneg _ (by decide)]
  omega

/-- Powers of ten against powers of two: `10 ^ 3 ≤ 2 ^ 10`, and `2 ^ 33 ≤ 10 ^ 10`. -/
theorem fine_enough {k : Int} {e : Nat} (he : e ≤ 2045)
    (hk : (k + 22) * 100000 ≤ ((e : Int) - 1021) * 30103) :
    2 * gridStep k < 2 ^ e * 10 ^ (-k).toNat := by
  rw [gridStep, Nat.mul_left_comm, two_mul_unitsPerOne]
  rcases lt_or_ge k 0 with hneg | hpos
  · obtain ⟨m, hm⟩ : ∃ m : Nat, -k = m := ⟨(-k).toNat, by omega⟩
    have h0 : k.toNat = 0 := by omega
    have hten : 2 ^ (33 * (m / 10)) * 2 ^ (3 * (m % 10)) ≤ 10 ^ m := by
      have hsplit : 10 ^ m = (10 ^ 10) ^ (m / 10) * 10 ^ (m % 10) := by
        rw [← Nat.pow_mul, ← Nat.pow_add, Nat.div_add_mod]
      rw [hsplit, Nat.pow_mul, Nat.pow_mul]
      exact Nat.mul_le_mul (Nat.pow_le_pow_left (by decide) _) (Nat.pow_le_pow_left (by decide) _)
    have hexp : 1075 < e + (33 * (m / 10) + 3 * (m % 10)) := by omega
    have hlt := Nat.pow_lt_pow_right (a := 2) (by decide) hexp
    rw [Nat.pow_add, Nat.pow_add] at hlt
    rw [h0, hm, Int.toNat_natCast, Nat.pow_zero, Nat.one_mul]
    exact Nat.lt_of_lt_of_le hlt (Nat.mul_le_mul_left _ hten)
  · obtain ⟨m, hm⟩ : ∃ m : Nat, k = m := ⟨k.toNat, by omega⟩
    have h0 : (-k).toNat = 0 := by omega
    have hten : 10 ^ m ≤ 2 ^ (10 * ((m + 2) / 3)) := by
      have hup : 10 ^ m ≤ 10 ^ (3 * ((m + 2) / 3)) := Nat.pow_le_pow_right (by decide) (by omega)
      refine Nat.le_trans hup ?_
      rw [Nat.pow_mul, Nat.pow_mul]
      exact Nat.pow_le_pow_left (by decide) _
    have hexp : 10 * ((m + 2) / 3) + 1075 < e := by omega
    have hlt := Nat.pow_lt_pow_right (a := 2) (by decide) hexp
    rw [Nat.pow_add] at hlt
    rw [h0, hm, Int.toNat_natCast, Nat.pow_zero, Nat.mul_one]
    exact Nat.lt_of_le_of_lt (Nat.mul_le_mul_right _ hten) hlt

theorem readsBack_shortest (hr : 0 < r) (hf : r < infinityRank) :
    readsBack r (shortest r) = true := by
  have htop := topExponent_le hr
  have he : r / 2 ^ 52 - 1 ≤ 2045 := by
    have hi : infinityRank = 2047 * 2 ^ 52 := rfl
    omega
  rw [shortest, if_neg (by omega)]
  refine readsBack_searchGrids 24 _ ⟨23, by decide, onGrid?_of_above (readsBack_above hr ?_)⟩
  refine fine_enough he ?_
  omega

/-- The shortest numeral of a finite rank is rounded to that rank. -/
theorem rank_shortest (hf : r < infinityRank) : (shortest r).rank = r := by
  by_cases hr : r = 0
  · subst hr
    rfl
  · have hpos : 0 < r := Nat.pos_of_ne_zero hr
    exact rank_of_readsBack hpos hf (readsBack_shortest hpos hf)

end LoxLang.Number
