import LoxLang.Token.Stream

/-!
Texts that spell given tokens.

`Spells line text tokens` says that the text, from the given line on, consists of the tokens in
order with blanks between them, each token so that what follows does not become part of it
(`Stands`).  Such a text has these tokens and no fault (`spells_segments`).
-/

namespace LoxLang

/-- The token is what is read first when its lexeme stands before `cs`. -/
def Token.Stands (t : Token) (cs : List Char) : Prop :=
  ∃ c w, t.lexeme.toList = c :: w ∧ Segment.first c (w ++ cs) = ⟨.token t.kind, c :: w⟩ ∧
    t.literal = Segment.literal? t.kind (c :: w)

inductive Spells : Nat → List Char → List Token → Prop
  | nil (line) : Spells line [] []
  | blank {line c cs ts} : Text.isBlank c = true → Spells (line + Text.newlines [c]) cs ts →
      Spells line (c :: cs) ts
  | token {line text t cs ts} : text = t.lexeme.toList ++ cs → t.Stands cs →
      t.line = line + Text.newlines t.lexeme.toList → Spells t.line cs ts →
      Spells line text (t :: ts)

/-! ## Blanks -/

/-- The characters with which a word may start. -/
theorem startsWord_iff {c : Char} : startsWord c = true ↔
    (65 ≤ c.toNat ∧ c.toNat ≤ 90) ∨ (97 ≤ c.toNat ∧ c.toNat ≤ 122) ∨ c = '_' := by
  have hupper : c.isUpper = true ↔ 65 ≤ c.toNat ∧ c.toNat ≤ 90 := decide_eq_true_iff
  have hlower : c.isLower = true ↔ 97 ≤ c.toNat ∧ c.toNat ≤ 122 := by
    show (decide ('a'.val ≤ c.val) && decide (c.val ≤ 'z'.val)) = true ↔ _
    rw [Bool.and_eq_true, decide_eq_true_iff, decide_eq_true_iff]
    exact Iff.rfl
  show ((c.isUpper || c.isLower) || c == '_') = true ↔ _
  rw [Bool.or_eq_true, Bool.or_eq_true, beq_iff_eq, hupper, hlower, or_assoc]

/-- Blanks are neither digits nor letters. -/
theorem not_inWord_of_isBlank {c : Char} (h : Text.isBlank c = true) :
    startsWord c = false ∧ c.isDigit = false := by
  have hn : ∀ n : Nat, (Text.blankRanges.any fun r => r.1 ≤ n && n ≤ r.2) = true →
      ¬ (48 ≤ n ∧ n ≤ 57) ∧ ¬ (65 ≤ n ∧ n ≤ 90) ∧ ¬ (97 ≤ n ∧ n ≤ 122) ∧ n ≠ 95 := by
    intro n hn
    simp [Text.blankRanges] at hn
    omega
  obtain ⟨hdigit, hupper, hlower, hunderscore⟩ := hn c.toNat h
  constructor
  · rw [← Bool.not_eq_true, startsWord_iff]
    rintro (hc | hc | rfl)
    · exact hupper hc
    · exact hlower hc
    · exact hunderscore rfl
  · rw [← Bool.not_eq_true, Char.isDigit_iff_toNat]
    exact hdigit

theorem first_blank {c : Char} (cs : List Char) (h : Text.isBlank c = true) :
    Segment.first c cs = ⟨.blank, c :: cs.takeWhile Text.isBlank⟩ := by
  obtain ⟨hw, hd⟩ := not_inWord_of_isBlank h
  rw [Segment.first, if_neg (by simp [hw]), if_neg (by simp [hd]), if_pos h]

theorem Token.Stands.not_isBlank {t : Token} {cs : List Char} (h : t.Stands cs) :
    ∃ c w, t.lexeme.toList = c :: w ∧ Text.isBlank c = false := by
  obtain ⟨c, w, hl, hf, -⟩ := h
  refine ⟨c, w, hl, ?_⟩
  cases hb : Text.isBlank c with
  | false => rfl
  | true =>
    rw [first_blank _ hb] at hf
    cases congrArg Segment.piece hf

/-- Blanks at the beginning may be passed at once. -/
theorem Spells.dropWhile {line : Nat} {cs : List Char} {ts : List Token} (h : Spells line cs ts) :
    Spells (line + Text.newlines (cs.takeWhile Text.isBlank)) (cs.dropWhile Text.isBlank) ts := by
  induction h with
  | nil line => exact .nil _
  | @blank line c cs ts hb _ ih =>
    rw [List.takeWhile_cons_of_pos hb, List.dropWhile_cons_of_pos hb]
    have hn : Text.newlines (c :: cs.takeWhile Text.isBlank) =
        Text.newlines [c] + Text.newlines (cs.takeWhile Text.isBlank) :=
      Text.newlines_append [c] _
    rwa [hn, ← Nat.add_assoc]
  | @token line text t cs ts he hs hline hrest _ =>
    obtain ⟨c, w, hl, hb⟩ := hs.not_isBlank
    have htake : text.takeWhile Text.isBlank = [] := by
      rw [he, hl, List.cons_append, List.takeWhile_cons_of_neg (by simp [hb])]
    have hdrop : text.dropWhile Text.isBlank = text := by
      rw [he, hl, List.cons_append, List.dropWhile_cons_of_neg (by simp [hb])]
    rw [htake, hdrop]
    exact .token he hs hline hrest

/-! ## The tokens of a text that is spelt -/

theorem drop_length_takeWhile (p : Char → Bool) (cs : List Char) :
    cs.drop (cs.takeWhile p).length = cs.dropWhile p := by
  have happend := List.takeWhile_append_dropWhile (p := p) (l := cs)
  generalize cs.takeWhile p = as at happend
  generalize cs.dropWhile p = bs at happend
  rw [← happend, List.drop_left]

theorem spells_segmentsUpTo (bound : Nat) {line : Nat} {cs : List Char} {ts : List Token}
    (h : Spells line cs ts) (hb : cs.length ≤ bound) :
    (withLines line (segmentsUpTo bound cs)).filterMap (fun s => s.1.token? s.2) = ts ∧
      (withLines line (segmentsUpTo bound cs)).filterMap (fun s => s.1.error? s.2) = [] := by
  induction bound generalizing line cs ts with
  | zero =>
    have hnil : cs = [] := List.length_eq_zero_iff.1 (Nat.le_zero.1 hb)
    subst hnil
    cases h with
    | nil => exact ⟨rfl, rfl⟩
    | token he hs =>
      obtain ⟨c, w, hl, -⟩ := hs
      rw [hl] at he
      cases he
  | succ bound ih =>
    cases h with
    | nil => exact ⟨rfl, rfl⟩
    | @blank _ c cs _ hblank hrest =>
      have hdrop := hrest.dropWhile
      have hn : Text.newlines [c] + Text.newlines (cs.takeWhile Text.isBlank) =
          Text.newlines (c :: cs.takeWhile Text.isBlank) :=
        (Text.newlines_append [c] _).symm
      have hlen : (cs.dropWhile Text.isBlank).length ≤ bound := by
        have := (List.dropWhile_sublist Text.isBlank (l := cs)).length_le
        rw [List.length_cons] at hb
        omega
      have hskip : (c :: cs).drop (c :: cs.takeWhile Text.isBlank).length =
          cs.dropWhile Text.isBlank := by
        rw [List.length_cons, List.drop_succ_cons, drop_length_takeWhile]
      rw [Nat.add_assoc, hn] at hdrop
      rw [segmentsUpTo, first_blank cs hblank, hskip]
      exact ih hdrop hlen
    | @token _ text t cs ts he hs hline hrest =>
      obtain ⟨c, w, hl, hf, hlit⟩ := hs
      subst he
      rw [hl] at hb hline ⊢
      have hskip : (c :: (w ++ cs)).drop (c :: w).length = cs := by
        rw [List.length_cons, List.drop_succ_cons, List.drop_left]
      have hlen : cs.length ≤ bound := by
        rw [List.cons_append, List.length_cons, List.length_append] at hb
        omega
      have htoken : Segment.token? ⟨.token t.kind, c :: w⟩ t.line = some t := by
        show some (Token.mk t.kind (String.ofList (c :: w)) _ t.line) = some t
        rw [← hlit, ← hl, String.ofList_toList]
      obtain ⟨hts, herr⟩ := ih hrest hlen
      rw [List.cons_append, segmentsUpTo, hf, hskip]
      dsimp only [withLines]
      rw [← hline]
      refine ⟨?_, herr⟩
      rw [List.filterMap_cons_some (f := fun s : Segment × Nat => s.1.token? s.2) htoken, hts]

/-- A text that spells tokens has just these, and no fault. -/
theorem Spells.ofText {text : String} {ts : List Token} (h : Spells 1 text.toList ts) :
    Token.ofText text = ts ++ [.eofAt (1 + Text.newlines text.toList)] ∧
      Token.errorsIn text = [] := by
  obtain ⟨hts, herr⟩ := spells_segmentsUpTo text.toList.length h (Nat.le_refl _)
  refine ⟨?_, herr⟩
  show (withLines 1 (segmentsUpTo text.toList.length text.toList)).filterMap _ ++ _ = _
  rw [hts]

end LoxLang
