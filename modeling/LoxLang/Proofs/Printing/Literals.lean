import LoxLang.Proofs.Number.Overflow
import LoxLang.Proofs.Token.Genuine
import LoxLang.Syntax.Reading
import LoxLang.Syntax.Source

/-!
Number literals, printed and read again.

A literal is printed with the shortest digits that denote its value, whatever digits it was written
with, and these are read as one number token with the same value.  The exception are the literals
that are too large for a double: their value is infinity, which is printed as a word and read as an
identifier (`Token.number_printed`).
-/

namespace LoxLang

namespace Token

/-- A text that is one genuine token. -/
theorem Genuine.ofText_lexeme {t : Token} (h : t.Genuine)
    (hline : t.line = 1 + Text.newlines t.lexeme.toList) :
    ofText t.lexeme = [t, eofAt t.line] ∧ errorsIn t.lexeme = [] := by
  have hspells : Spells 1 t.lexeme.toList [t] :=
    .token (List.append_nil _).symm (h.stands (by simp)) hline (.nil _)
  obtain ⟨htokens, hfaults⟩ := hspells.ofText
  rw [htokens, hline]
  exact ⟨rfl, hfaults⟩

/-- The parser makes the number of it whose rank is that of the decimal. -/
theorem Genuine.numberOf_eq {t : Token} (h : t.Genuine) (hk : t.kind = .number) :
    ∃ d, Number.decimalOf? t.lexeme.toList = some d ∧
      Read.numberOf t = Number.ofRank false d.rank ∧
      t.literal = some (.number (Read.numberOf t)) := by
  obtain ⟨hn, hlit⟩ := h.isNumeral hk
  obtain ⟨d, hd⟩ := hn.decimalOf?
  have hvalue := Number.ofText?_numeral hn
  rw [String.ofList_toList, hd] at hvalue
  rw [hvalue] at hlit
  have hnumber : Read.numberOf t = Number.ofRank false d.rank := by
    rw [Read.numberOf, hlit]
    rfl
  exact ⟨d, hd, hnumber, by rw [hnumber]; exact hlit⟩

/-- What a finite magnitude is printed as is read as one number token with its value. -/
theorem ofText_toText {r : Nat} (h : r < Number.infinityRank) :
    let text := Number.toText (Number.ofRank false r)
    ofText text = [⟨.number, text, some (.number (Number.ofRank false r)), 1⟩, eofAt 1] ∧
      errorsIn text = [] := by
  have hle := Nat.le_of_lt h
  have hfinite : Number.isFinite (Number.ofRank false r) = true := by
    rw [Number.isFinite, Number.rankOf_ofRank hle, decide_eq_true_iff]
    exact h
  have hlines := (Number.ofText?_toText hfinite hle).1.newlines
  exact (genuine_number hfinite hle 1).ofText_lexeme (by rw [hlines])

theorem toText_infinite :
    Number.toText (Number.ofRank false Number.infinityRank) = "inf" := by
  rw [Number.toText_ofRank (Nat.le_refl _)]
  rfl

theorem ofText_inf :
    ofText "inf" = [⟨.identifier, "inf", none, 1⟩, eofAt 1] ∧ errorsIn "inf" = [] := by
  have hkind : Kind.ofWord (String.ofList ['i', 'n', 'f']) = .identifier := by decide
  have hword := @Genuine.word 'i' ['n', 'f'] 1 (by decide) (List.all_eq_true.1 (by decide))
  rw [hkind] at hword
  exact hword.ofText_lexeme rfl

/-- For every number token of a text: the literal that the parser makes of it is printed as a text
without fault.  That text is one number token with the same literal if the digits of the first one
denote less than the midpoint behind the greatest double, and otherwise the word `inf`, which is an
identifier. -/
theorem number_printed {source : String} {t : Token} (h : t ∈ ofText source)
    (hk : t.kind = .number) :
    ∃ d, Number.decimalOf? t.lexeme.toList = some d ∧
      t.literal = some (.number (Read.numberOf t)) ∧
      let text := (Expr.constant (.number (Read.numberOf t))).source
      errorsIn text = [] ∧
        ofText text =
          if d.numerator < Number.overflow * d.denominator then
            [⟨.number, text, t.literal, 1⟩, eofAt 1]
          else [⟨.identifier, "inf", none, 1⟩, eofAt 1] := by
  have hgenuine := genuine_of_mem h (by rw [hk]; decide)
  obtain ⟨d, hd, hnumber, hlit⟩ := hgenuine.numberOf_eq hk
  have htext : (Expr.constant (.number (Read.numberOf t))).source =
      Number.toText (Number.ofRank false d.rank) := by rw [hnumber]; rfl
  have hle := Number.rank_le_infinityRank d
  refine ⟨d, hd, hlit, ?_⟩
  dsimp only
  rw [htext]
  by_cases hrank : d.rank = Number.infinityRank
  · have hlarge := d.rank_eq_infinityRank_iff.1 hrank
    rw [hrank, toText_infinite, if_neg (Nat.not_lt.2 hlarge)]
    exact ofText_inf.symm
  · have hsmall : d.numerator < Number.overflow * d.denominator := by
      rw [← Nat.not_le, ← d.rank_eq_infinityRank_iff]
      exact hrank
    rw [if_pos hsmall, hlit, hnumber]
    exact (ofText_toText (Nat.lt_of_le_of_ne hle hrank)).symm

/-- A fraction is printed without the zeros at its end, and the text is a number again. -/
theorem number_printed_fraction :
    let t := (ofText "print 2.50;").get ⟨1, by decide +kernel⟩
    t ∈ ofText "print 2.50;" ∧ t.kind = .number ∧ t.lexeme = "2.50" ∧
      (Expr.constant (.number (Read.numberOf t))).source = "2.5" ∧
      ofText "2.5" = [⟨.number, "2.5", t.literal, 1⟩, eofAt 1] := by
  intro t
  have hmem : t ∈ ofText "print 2.50;" := List.get_mem _ _
  have hkind : t.kind = .number := by decide +kernel
  have htext : (Expr.constant (.number (Read.numberOf t))).source = "2.5" := by decide +kernel
  have hdecimal : Number.decimalOf? t.lexeme.toList = some ⟨250, -2⟩ := by decide +kernel
  obtain ⟨d, hd, -, -, htokens⟩ := number_printed hmem hkind
  obtain rfl : ⟨250, -2⟩ = d := Option.some.inj (hdecimal.symm.trans hd)
  rw [htext, if_pos (by decide +kernel)] at htokens
  exact ⟨hmem, hkind, by decide +kernel, htext, htokens⟩

/-- One and 309 zeros are one number token.  It is printed as a text that has none. -/
theorem number_printed_as_identifier :
    let digits := String.ofList ('1' :: List.replicate 309 '0')
    ∃ t, ofText digits = [t, eofAt t.line] ∧ errorsIn digits = [] ∧ t.kind = .number ∧
      (Expr.constant (.number (Read.numberOf t))).source = "inf" ∧
      ofText "inf" = [⟨.identifier, "inf", none, 1⟩, eofAt 1] := by
  intro digits
  have hdigits : Number.Digits ('1' :: List.replicate 309 '0') :=
    List.forall_mem_cons.2 ⟨rfl, Number.digits_replicate 309⟩
  have hn := Number.IsNumeral.whole (List.cons_ne_nil _ _) hdigits
  have hgenuine := @Genuine.number _ 1 hn
  have hline : 1 = 1 + Text.newlines digits.toList := by
    rw [String.toList_ofList, hn.newlines]
  obtain ⟨htokens, hfaults⟩ := hgenuine.ofText_lexeme hline
  obtain ⟨d, hd, hnumber, -⟩ := hgenuine.numberOf_eq rfl
  have hrank : d.rank = Number.infinityRank := by
    have hlarge : ((Number.decimalOf? ('1' :: List.replicate 309 '0')).all
        fun d => d.rank = Number.infinityRank) = true := by decide +kernel
    rw [String.toList_ofList] at hd
    rw [hd] at hlarge
    simpa using hlarge
  have htext : (Expr.constant (.number (Number.ofRank false Number.infinityRank))).source = "inf" :=
    toText_infinite
  refine ⟨_, htokens, hfaults, rfl, ?_, ofText_inf.1⟩
  rw [hnumber, hrank, htext]

end Token

end LoxLang
