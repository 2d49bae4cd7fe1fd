import LoxLang.Number.Text
import LoxLang.Proofs.Number.Numeral

/-!
Doubles and their bits.

A rank up to that of infinity is the bit pattern of a double that is not a not-a-number, and such a
pattern survives being made a double (`toBits_ofBits`).  So the rank of `ofRank` is the rank it was
made from, and reading a written number gives it again (`ofText?_toText`).
-/

namespace LoxLang.Number

open Float.Model (Format)
open Float.Model.UnpackedFloat

theorem toNat_packComponents (sign : Sign) (exponent : BitVec 11) (mantissa : BitVec 52) :
    (packComponents Format.binary64 sign exponent mantissa).toNat =
      (sign.toBitVec.toNat * 2 ^ 11 + exponent.toNat) * 2 ^ 52 + mantissa.toNat := by
  unfold packComponents
  rw [BitVec.toNat_append, BitVec.toNat_append, ← Nat.shiftLeft_add_eq_or_of_lt mantissa.isLt,
    ← Nat.shiftLeft_add_eq_or_of_lt exponent.isLt, Nat.shiftLeft_eq, Nat.shiftLeft_eq]

theorem toNat_unpackMantissa (b : BitVec 64) :
    (@unpackMantissa Format.binary64 b).toNat = b.toNat % 2 ^ 52 := by
  unfold unpackMantissa
  simp

theorem toNat_unpackExponent (b : BitVec 64) :
    (@unpackExponent Format.binary64 b).toNat = b.toNat / 2 ^ 52 % 2 ^ 11 := by
  unfold unpackExponent
  simp [Nat.shiftRight_eq_div_pow]

theorem toNat_unpackSign (b : BitVec 64) :
    (@unpackSign Format.binary64 b).toNat = b.toNat / 2 ^ 63 % 2 := by
  unfold unpackSign
  simp [Nat.shiftRight_eq_div_pow]

theorem toNat_positive : (Sign.toBitVec .positive).toNat = 0 := rfl

/-- A number without the implicit bit. -/
theorem toNat_pack_subnormal {m : Nat} {x : Int} (hm : 0 < m) (hx : x = -1074)
    (hlt : m < 2 ^ 52) :
    (pack Format.binary64 (.finite .positive m x hm)).toNat = m := by
  have hbias : (x + (Format.exponentBias Format.binary64 : Nat) + (52 : Nat)).toNat = 1 := by
    subst hx
    decide
  have hlog : m.log2 < 52 := (Nat.log2_lt (by omega)).2 hlt
  have hbits : ¬ m.log2 + 1 = Format.mantissaBits Format.binary64 := by
    show ¬ m.log2 + 1 = 53
    omega
  unfold pack
  dsimp only
  rw [hbias, if_neg (by decide), if_neg hbits, toNat_packComponents, toNat_positive,
    BitVec.toNat_ofNat, BitVec.toNat_ofNat, Nat.mod_eq_of_lt hlt]
  omega

/-- A number with the implicit bit. -/
theorem toNat_pack_normal {m e : Nat} {x : Int} (hm : 0 < m) (hx : x = (e : Int) - 1075)
    (he : e < 2047) (hlow : 2 ^ 52 ≤ m) (hhigh : m < 2 ^ 53) :
    (pack Format.binary64 (.finite .positive m x hm)).toNat = e * 2 ^ 52 + (m - 2 ^ 52) := by
  have hbias : (x + (Format.exponentBias Format.binary64 : Nat) + (52 : Nat)).toNat = e := by
    have hb : Format.exponentBias Format.binary64 = 1023 := rfl
    omega
  have hlog : m.log2 = 52 := by
    have h1 := (Nat.le_log2 (by omega)).2 hlow
    have h2 := (Nat.log2_lt (by omega)).2 hhigh
    omega
  have hbits : m.log2 + 1 = Format.mantissaBits Format.binary64 := by
    rw [hlog]
    rfl
  have hsmall : ¬ 2 ^ 11 ≤ e + 1 := by omega
  unfold pack
  dsimp only
  rw [hbias, if_neg hsmall, if_pos hbits, toNat_packComponents, toNat_positive,
    BitVec.toNat_ofNat, BitVec.toNat_ofNat]
  omega

theorem pack_unpack {b : BitVec 64} (h : b.toNat ≤ infinityRank) :
    pack Format.binary64 (unpack Format.binary64 b) = b := by
  have hinf : infinityRank = 2047 * 2 ^ 52 := rfl
  have hm := toNat_unpackMantissa b
  have he := toNat_unpackExponent b
  have hs := toNat_unpackSign b
  have hsign : Sign.ofBitVec (@unpackSign Format.binary64 b) = .positive := by
    have hz : @unpackSign Format.binary64 b = 0#1 := by
      apply BitVec.eq_of_toNat_eq
      rw [hs, BitVec.toNat_zero]
      omega
    rw [hz]
    rfl
  apply BitVec.eq_of_toNat_eq
  unfold unpack
  dsimp only
  rw [hsign]
  by_cases hexp : @unpackExponent Format.binary64 b = -1#_
  · have hexp' : (@unpackExponent Format.binary64 b).toNat = 2047 := by
      rw [hexp]
      rfl
    rw [if_pos hexp]
    by_cases hmant : @unpackMantissa Format.binary64 b = 0#_
    · have hmant' : (@unpackMantissa Format.binary64 b).toNat = 0 := by
        rw [hmant]
        rfl
      have hpack : (packedInfinity Format.binary64 .positive).toNat = 2047 * 2 ^ 52 := rfl
      rw [if_pos hmant]
      show (packedInfinity Format.binary64 .positive).toNat = _
      omega
    · exfalso
      apply hmant
      apply BitVec.eq_of_toNat_eq
      rw [BitVec.toNat_zero]
      omega
  have hne : (@unpackExponent Format.binary64 b).toNat ≠ 2047 :=
    fun hz => hexp (BitVec.eq_of_toNat_eq hz)
  rw [if_neg hexp]
  by_cases hzero : @unpackExponent Format.binary64 b = 0#_
  · have hzero' : (@unpackExponent Format.binary64 b).toNat = 0 := by
      rw [hzero]
      rfl
    rw [if_pos hzero]
    by_cases hmant : @unpackMantissa Format.binary64 b = 0#_
    · have hmant' : (@unpackMantissa Format.binary64 b).toNat = 0 := by
        rw [hmant]
        rfl
      have hpack : (packedZero Format.binary64 .positive).toNat = 0 := rfl
      rw [dif_pos hmant]
      show (packedZero Format.binary64 .positive).toNat = _
      omega
    · rw [dif_neg hmant, toNat_pack_subnormal _ (by rw [hzero']; rfl)
        (@unpackMantissa Format.binary64 b).isLt]
      omega
  · have hbits : (1#1 ++ @unpackMantissa Format.binary64 b).toNat =
        2 ^ 52 + (@unpackMantissa Format.binary64 b).toNat := by
      rw [BitVec.toNat_append,
        ← Nat.shiftLeft_add_eq_or_of_lt (@unpackMantissa Format.binary64 b).isLt, Nat.shiftLeft_eq]
      rfl
    have hexponent : ((@unpackExponent Format.binary64 b).toNat : Int) -
        ((Format.exponentBias Format.binary64 : Nat) + (52 : Nat)) =
        ((@unpackExponent Format.binary64 b).toNat : Int) - 1075 := rfl
    rw [if_neg hzero, toNat_pack_normal _ hexponent (by omega) (by omega) (by omega)]
    omega

/-- The bits of a double are those it was made from, unless they are of a not-a-number. -/
theorem toBits_ofBits {b : UInt64} (h : b.toNat ≤ infinityRank) : (Float.ofBits b).toBits = b := by
  show UInt64.ofBitVec (pack Format.binary64 (unpack Format.binary64 b.toBitVec)) = b
  rw [pack_unpack h]

theorem toBits_ofRank {r : Nat} (h : r ≤ infinityRank) : (ofRank false r).toBits.toNat = r := by
  have hr : (UInt64.ofNat r).toNat = r :=
    UInt64.toNat_ofNat_of_lt' (Nat.lt_of_le_of_lt h (by decide))
  show (Float.ofBits (UInt64.ofNat r)).toBits.toNat = r
  rw [toBits_ofBits (by rw [hr]; exact h), hr]

theorem rankOf_ofRank {r : Nat} (h : r ≤ infinityRank) : rankOf (ofRank false r) = r := by
  have hinf : infinityRank < 2 ^ 63 := by decide
  rw [rankOf, toBits_ofRank h]
  omega

theorem isNegative_ofRank {r : Nat} (h : r ≤ infinityRank) :
    isNegative (ofRank false r) = false := by
  have hinf : infinityRank < 2 ^ 63 := by decide
  rw [isNegative, toBits_ofRank h, decide_eq_false_iff_not]
  omega

theorem toText_ofRank {r : Nat} (h : r ≤ infinityRank) :
    toText (ofRank false r) = String.ofList (magnitudeText r) := by
  rw [toText, rankOf_ofRank h, isNegative_ofRank h, if_neg (by omega)]
  rfl

/-- A finite number without a sign is written as a numeral, and reading that gives it again. -/
theorem ofText?_toText {r : Nat} (h : isFinite (ofRank false r) = true) (hr : r ≤ infinityRank) :
    IsNumeral (toText (ofRank false r)).toList ∧
      ofText? (toText (ofRank false r)) = some (ofRank false r) := by
  have hlt : r < infinityRank := by
    rw [isFinite, rankOf_ofRank hr, decide_eq_true_iff] at h
    exact h
  rw [toText_ofRank hr, String.toList_ofList]
  exact ⟨magnitudeText_isNumeral hlt, ofText?_magnitudeText hlt⟩

end LoxLang.Number
