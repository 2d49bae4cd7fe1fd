import LoxLang.Number.Text
import LoxLang.Proofs.Number.Shortest

/-!
Numeral texts: digits, with or without a point and more digits.

Finite magnitudes are written as such texts (`magnitudeText_isNumeral`), and these are read with
the value of their digits (`decimalOf?_whole`, `decimalOf?_fraction`).  Together with the shortest
numeral this makes reading undo writing (`ofText?_magnitudeText`).
-/

namespace LoxLang

/-- What is of a class is taken up to the first that is not. -/
theorem takeWhile_append_stop {α : Type} {p : α → Bool} {as bs : List α} (h : ∀ a ∈ as, p a = true)
    (hb : ∀ b ∈ bs.head?, p b = false) :
    (as ++ bs).takeWhile p = as ∧ (as ++ bs).dropWhile p = bs := by
  have hnil : bs.takeWhile p = [] ∧ bs.dropWhile p = bs := by
    cases bs with
    | nil => exact ⟨rfl, rfl⟩
    | cons b bs =>
      have hf := hb b rfl
      exact ⟨List.takeWhile_cons_of_neg (by simp [hf]), List.dropWhile_cons_of_neg (by simp [hf])⟩
  rw [List.takeWhile_append_of_pos h, List.dropWhile_append_of_pos h, hnil.1, hnil.2,
    List.append_nil]
  exact ⟨rfl, rfl⟩

namespace Number

/-! ## Digits -/

def Digits (cs : List Char) : Prop := ∀ c ∈ cs, c.isDigit = true

/-- Digits, with a fraction or without. -/
inductive IsNumeral : List Char → Prop
  | whole {cs} : cs ≠ [] → Digits cs → IsNumeral cs
  | fraction {cs ds} : cs ≠ [] → Digits cs → ds ≠ [] → Digits ds → IsNumeral (cs ++ '.' :: ds)

theorem Digits.append {cs ds : List Char} (h : Digits cs) (h' : Digits ds) : Digits (cs ++ ds) := by
  intro c hc
  rcases List.mem_append.1 hc with hc | hc
  · exact h c hc
  · exact h' c hc

theorem Digits.sublist {cs ds : List Char} (h : Digits ds) (hs : cs.Sublist ds) : Digits cs :=
  fun c hc => h c (hs.subset hc)

theorem digits_replicate (n : Nat) : Digits (List.replicate n '0') := by
  intro c hc
  rw [List.eq_of_mem_replicate hc]
  rfl

theorem digits_toDigits (n : Nat) : Digits (Nat.toDigits 10 n) :=
  fun _ hc => Nat.isDigit_of_mem_toDigits (by decide) (by decide) hc

theorem Digits.takeWhile_append {cs : List Char} (h : Digits cs) (ds : List Char)
    (hd : ∀ c ∈ ds.head?, c.isDigit = false) :
    (cs ++ ds).takeWhile Char.isDigit = cs ∧ (cs ++ ds).dropWhile Char.isDigit = ds :=
  takeWhile_append_stop h hd

/-! ## Writing -/

theorem positional_isNumeral (d : Decimal) : IsNumeral d.positional := by
  have hdigits := digits_toDigits d.digits
  have hne : Nat.toDigits 10 d.digits ≠ [] := Nat.toDigits_ne_nil
  unfold Decimal.positional
  dsimp only
  split
  · split
    · exact .whole hne hdigits
    · exact .whole (List.append_ne_nil_of_left_ne_nil hne _) (hdigits.append (digits_replicate _))
  · rename_i hneg
    have hpadded := (digits_replicate ((-d.exponent).toNat + 1 - (Nat.toDigits 10 d.digits).length)).append
      hdigits
    generalize hp : List.replicate _ '0' ++ Nat.toDigits 10 d.digits = padded at *
    have hlen : (-d.exponent).toNat + 1 ≤ padded.length := by
      rw [← hp, List.length_append, List.length_replicate]
      omega
    refine .fraction ?_ (hpadded.sublist (List.take_sublist _ _)) ?_
      (hpadded.sublist (List.drop_sublist _ _))
    · rw [← List.length_pos_iff, List.length_take]
      omega
    · rw [← List.length_pos_iff, List.length_drop]
      omega

/-! ## Reading -/

theorem decimalOf?_whole {cs : List Char} (hne : cs ≠ []) (h : Digits cs) :
    decimalOf? cs = some ⟨digitsValue cs, 0⟩ := by
  have hsplit := h.takeWhile_append [] (by simp)
  rw [List.append_nil] at hsplit
  have hempty : cs.isEmpty = false := List.isEmpty_eq_false_iff.2 hne
  unfold decimalOf?
  rw [hsplit.1, hsplit.2]
  simp [hempty, exponentOf?]

theorem decimalOf?_fraction {cs ds : List Char} (hne : cs ≠ []) (h : Digits cs) (h' : Digits ds) :
    decimalOf? (cs ++ '.' :: ds) = some ⟨digitsValue (cs ++ ds), -(ds.length : Int)⟩ := by
  have hsplit := h.takeWhile_append ('.' :: ds) (by simp)
  have hrest := h'.takeWhile_append [] (by simp)
  rw [List.append_nil] at hrest
  have hempty : cs.isEmpty = false := List.isEmpty_eq_false_iff.2 hne
  unfold decimalOf?
  rw [hsplit.1, hsplit.2]
  simp [hempty, hrest, exponentOf?]

theorem IsNumeral.head {cs : List Char} (h : IsNumeral cs) :
    ∃ c rest, cs = c :: rest ∧ c.isDigit = true := by
  cases h with
  | whole hne hd =>
    obtain ⟨c, rest, rfl⟩ := List.exists_cons_of_ne_nil hne
    exact ⟨c, rest, rfl, hd c List.mem_cons_self⟩
  | fraction hne hd =>
    obtain ⟨c, rest, rfl⟩ := List.exists_cons_of_ne_nil hne
    exact ⟨c, _, rfl, hd c List.mem_cons_self⟩

theorem toLower_of_isDigit {c : Char} (h : c.isDigit = true) : c.toLower = c := by
  have hle : c.val ≤ '9'.val := by
    rw [Char.isDigit, Bool.and_eq_true, decide_eq_true_iff, decide_eq_true_iff] at h
    exact h.2
  have hno : ¬ (c.val ≥ 'A'.val ∧ c.val ≤ 'Z'.val) := by
    rintro ⟨ha, -⟩
    exact absurd (UInt32.le_trans ha hle) (by decide)
  exact dif_neg hno

/-- A digit is neither a sign nor the first letter of a word for a number. -/
theorem ne_of_isDigit {c d : Char} (h : c.isDigit = true) (hd : d.isDigit = false) : c ≠ d := by
  rintro rfl
  rw [h] at hd
  cases hd

theorem ofText?_numeral {cs : List Char} (h : IsNumeral cs) :
    ofText? (String.ofList cs) = (decimalOf? cs).map fun d => ofRank false d.rank := by
  obtain ⟨c, rest, rfl, hc⟩ := h.head
  have hminus : c ≠ '-' := ne_of_isDigit hc rfl
  have hplus : c ≠ '+' := ne_of_isDigit hc rfl
  have hi : c ≠ 'i' := ne_of_isDigit hc rfl
  have hn : c ≠ 'n' := ne_of_isDigit hc rfl
  unfold ofText?
  rw [String.toList_ofList]
  simp [hminus, hplus, toLower_of_isDigit hc, hi, hn]

theorem rank_le_infinityRank (d : Decimal) : d.rank ≤ infinityRank := by
  unfold Decimal.rank
  split
  · exact Nat.zero_le _
  split
  · exact Nat.le_refl _
  split
  · exact Nat.zero_le _
  · exact Nat.min_le_right _ _

theorem IsNumeral.decimalOf? {cs : List Char} (h : IsNumeral cs) :
    ∃ d, decimalOf? cs = some d := by
  cases h with
  | whole hne hd => exact ⟨_, decimalOf?_whole hne hd⟩
  | fraction hne hd _ hd' => exact ⟨_, decimalOf?_fraction hne hd hd'⟩

/-- A numeral denotes the number of some rank without a sign. -/
theorem IsNumeral.ofText? {cs : List Char} (h : IsNumeral cs) :
    ∃ r, r ≤ infinityRank ∧ ofText? (String.ofList cs) = some (ofRank false r) := by
  obtain ⟨d, hd⟩ := h.decimalOf?
  exact ⟨d.rank, rank_le_infinityRank d, by rw [ofText?_numeral h, hd, Option.map_some]⟩

theorem digitsValue_toDigits (n : Nat) : digitsValue (Nat.toDigits 10 n) = n :=
  Nat.ofDigitChars_toDigits (by decide) (by decide)

/-- The numeral that was written is read again, or one of the same value. -/
theorem decimalOf?_positional (d : Decimal) (h : 0 < d.digits) :
    ∃ d', decimalOf? d.positional = some d' ∧ d'.numerator = d.numerator ∧
      d'.denominator = d.denominator := by
  have hne : Nat.toDigits 10 d.digits ≠ [] := Nat.toDigits_ne_nil
  have hdigits := digits_toDigits d.digits
  unfold Decimal.positional
  dsimp only
  split
  · rename_i hexp
    rw [if_neg (by omega)]
    have hz : (-d.exponent).toNat = 0 := by omega
    refine ⟨_, decimalOf?_whole (List.append_ne_nil_of_left_ne_nil hne _)
      (hdigits.append (digits_replicate _)), ?_, ?_⟩
    · have hvalue : digitsValue (Nat.toDigits 10 d.digits ++ List.replicate d.exponent.toNat '0') =
          10 ^ d.exponent.toNat * d.digits := by
        rw [digitsValue, Nat.ofDigitChars_append, Nat.ofDigitChars_replicate_zero]
        exact congrArg _ (digitsValue_toDigits d.digits)
      show digitsValue _ * 10 ^ 0 = d.digits * 10 ^ d.exponent.toNat
      rw [hvalue, Nat.pow_zero, Nat.mul_one, Nat.mul_comm]
    · show 10 ^ 0 = 10 ^ (-d.exponent).toNat
      rw [hz]
  · rename_i hneg
    have hvalue : digitsValue (List.replicate ((-d.exponent).toNat + 1 -
        (Nat.toDigits 10 d.digits).length) '0' ++ Nat.toDigits 10 d.digits) = d.digits := by
      rw [digitsValue, Nat.ofDigitChars_append, Nat.ofDigitChars_replicate_zero, Nat.mul_zero]
      exact digitsValue_toDigits d.digits
    have hpadded := (digits_replicate ((-d.exponent).toNat + 1 -
      (Nat.toDigits 10 d.digits).length)).append hdigits
    generalize hp : List.replicate _ '0' ++ Nat.toDigits 10 d.digits = padded at *
    have hlen : (-d.exponent).toNat + 1 ≤ padded.length := by
      rw [← hp, List.length_append, List.length_replicate]
      omega
    have hwhole : padded.take (padded.length - (-d.exponent).toNat) ≠ [] := by
      rw [← List.length_pos_iff, List.length_take]
      omega
    have hfraction : (padded.drop (padded.length - (-d.exponent).toNat)).length =
        (-d.exponent).toNat := by
      rw [List.length_drop]
      omega
    have hback : -(((-d.exponent).toNat : Nat) : Int) = d.exponent := by omega
    refine ⟨d, ?_, rfl, rfl⟩
    rw [decimalOf?_fraction hwhole (hpadded.sublist (List.take_sublist _ _))
      (hpadded.sublist (List.drop_sublist _ _)), List.take_append_drop, hvalue, hfraction, hback]

theorem magnitudeText_isNumeral {r : Nat} (h : r < infinityRank) : IsNumeral (magnitudeText r) := by
  rw [magnitudeText, if_pos h]
  exact positional_isNumeral _

/-- Reading a magnitude that has been written gives it again. -/
theorem ofText?_magnitudeText {r : Nat} (h : r < infinityRank) :
    ofText? (String.ofList (magnitudeText r)) = some (ofRank false r) := by
  rw [ofText?_numeral (magnitudeText_isNumeral h), magnitudeText, if_pos h]
  by_cases hr : r = 0
  · subst hr
    rfl
  · have hpos : 0 < r := Nat.pos_of_ne_zero hr
    have hback := readsBack_shortest hpos h
    obtain ⟨d, hd, hn, hden⟩ := decimalOf?_positional (shortest r) (digits_pos_of_readsBack hpos hback)
    rw [hd, Option.map_some, rank_of_readsBack hpos h (readsBack_congr hn hden hback)]

end Number

end LoxLang
