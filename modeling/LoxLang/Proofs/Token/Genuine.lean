import LoxLang.Proofs.Number.Bits
import LoxLang.Proofs.Token.Spelling
import Mathlib.Data.List.TakeWhile

/-!
Tokens that a text can have.

Every token of a text but the closing one is a word, a numeral, a string between quotes or a mark,
with the kind and the literal that go with it (`genuine_of_mem`).  Such a token is read again
wherever its lexeme stands before a character that does not extend it (`Genuine.stands`), and the
lexeme of a keyword or a mark is given by its kind (`Genuine.eq_fixed`).
-/

namespace LoxLang

namespace Kind

/-- The text of a keyword or a mark. -/
def text? : Kind → Option String
  | openParen => some "(" | closeParen => some ")"
  | openCurly => some "\x7b" | closeCurly => some "\x7d"
  | assignment => some "=" | equals => some "==" | not => some "!" | notEquals => some "!="
  | less => some "<" | lessEquals => some "<="
  | greater => some ">" | greaterEquals => some ">="
  | dot => some "." | semicolon => some ";" | comma => some ","
  | plus => some "+" | dash => some "-" | slash => some "/" | star => some "*"
  | percent => some "%"
  | andKw => some "and" | classKw => some "class" | elseKw => some "else"
  | falseKw => some "false" | forKw => some "for" | funKw => some "fun" | ifKw => some "if"
  | nilKw => some "nil" | orKw => some "or" | printKw => some "print"
  | returnKw => some "return" | superKw => some "super" | thisKw => some "this"
  | trueKw => some "true" | varKw => some "var" | whileKw => some "while"
  | eof | number | string | identifier => none

/-- Whether a character right behind a token of the kind would make it another token. -/
def extendedBy (k : Kind) (c : Char) : Bool :=
  match k with
  | assignment | not | less | greater => c == '='
  | slash => c == '/'
  | number => c.isDigit || c == '.'
  | eof | string | openParen | closeParen | openCurly | closeCurly | equals | notEquals
  | lessEquals | greaterEquals | dot | semicolon | comma | plus | dash | star | percent => false
  | _ => inWord c

theorem text?_of_mem_keywords : ∀ m ∈ keywords, m.2.text? = some m.1 := by decide

theorem text?_of_mem_marks : ∀ m ∈ marks, m.2.text? = some (String.ofList m.1) := by decide

theorem word_of_mem_keywords : ∀ m ∈ keywords, ofWord m.1 = m.2 ∧
    m.1.toList.head?.any startsWord ∧ m.1.toList.all inWord := by decide

theorem extendedBy_of_mem_keywords : ∀ m ∈ keywords, m.2.extendedBy = inWord := by
  simp only [keywords, List.forall_mem_cons]
  simp only [List.not_mem_nil, false_implies, implies_true, and_true]
  exact ⟨rfl, rfl, rfl, rfl, rfl, rfl, rfl, rfl, rfl, rfl, rfl, rfl, rfl, rfl, rfl, rfl⟩

theorem ofWord_eq (w : String) : ofWord w = identifier ∨ (w, ofWord w) ∈ keywords := by
  unfold ofWord
  cases hl : keywords.lookup w with
  | none => exact .inl rfl
  | some k =>
    obtain ⟨before, after, he, -⟩ := List.lookup_eq_some_iff.1 hl
    right
    rw [he]
    exact List.mem_append_right _ List.mem_cons_self

theorem extendedBy_ofWord (w : String) : (ofWord w).extendedBy = inWord := by
  rcases ofWord_eq w with h | h
  · rw [h]
    rfl
  · exact extendedBy_of_mem_keywords _ h

/-- Words are keywords or identifiers. -/
theorem ofWord_ne {k : Kind} (hi : k ≠ identifier) (hk : ∀ m ∈ keywords, m.2 ≠ k) (w : String) :
    ofWord w ≠ k := by
  rcases ofWord_eq w with h | h
  · rw [h]
    exact hi.symm
  · exact hk _ h

theorem literal?_ofWord (w : String) (cs : List Char) :
    Segment.literal? (ofWord w) cs = none := by
  have hn : ofWord w ≠ .number := ofWord_ne (by decide) (by decide) w
  have hs : ofWord w ≠ .string := ofWord_ne (by decide) (by decide) w
  unfold Segment.literal?
  split
  · contradiction
  · contradiction
  · rfl

theorem literal?_of_mem_marks : ∀ m ∈ marks, Segment.literal? m.2 m.1 = none := by
  simp only [marks, List.forall_mem_cons]
  simp [Segment.literal?]

end Kind

/-- A token that some text has. -/
inductive Token.Genuine : Token → Prop
  | word {c cs line} : startsWord c = true → (∀ d ∈ cs, inWord d = true) →
      Genuine ⟨Kind.ofWord (String.ofList (c :: cs)), String.ofList (c :: cs), none, line⟩
  | number {cs line} : Number.IsNumeral cs →
      Genuine ⟨.number, String.ofList cs,
        some (.number ((Number.ofText? (String.ofList cs)).getD 0)), line⟩
  | string {body line} : '"' ∉ body →
      Genuine ⟨.string, String.ofList ('"' :: (body ++ ['"'])),
        some (.string (String.ofList body)), line⟩
  | mark {m line} : m ∈ marks → Genuine ⟨m.2, String.ofList m.1, none, line⟩

/-! ## The tokens of a text -/

namespace Segment

theorem numeral_isNumeral {c : Char} {cs : List Char} (h : c.isDigit = true) :
    Number.IsNumeral (numeral (c :: cs)) := by
  have hdigits : ∀ ds : List Char, Number.Digits (ds.takeWhile Char.isDigit) :=
    fun ds d hd => List.mem_takeWhile_imp hd
  have hne : (c :: cs).takeWhile Char.isDigit ≠ [] := by
    rw [List.takeWhile_cons_of_pos h]
    exact List.cons_ne_nil _ _
  unfold numeral
  split
  · dsimp only
    split
    · exact .whole hne (hdigits _)
    · rename_i hfraction
      exact .fraction hne (hdigits _) (by simpa using hfraction) (hdigits _)
  · exact .whole hne (hdigits _)

theorem quotation_token {cs : List Char} {k : Kind} (h : (quotation cs).piece = .token k) :
    k = .string ∧ ∃ body, '"' ∉ body ∧ (quotation cs).text = '"' :: (body ++ ['"']) := by
  unfold quotation at h ⊢
  split at h
  · cases h
  · rename_i quote rest hrest
    cases h
    have hquote : quote = '"' := by
      have hhead := List.head?_dropWhile_not (fun d => decide (d ≠ '"')) cs
      rw [hrest] at hhead
      simpa using hhead
    refine ⟨rfl, cs.takeWhile (· ≠ '"'), ?_, by rw [hquote]⟩
    intro hmem
    have hne := List.mem_takeWhile_imp hmem
    simp at hne

/-- A segment that is a token is a genuine one. -/
theorem genuine_of_token? {c : Char} {cs : List Char} {line : Nat} {t : Token}
    (h : (first c cs).token? line = some t) : t.Genuine := by
  unfold first at h
  split at h
  · rename_i hw
    cases h
    rw [Kind.literal?_ofWord]
    exact .word hw fun d hd => List.mem_takeWhile_imp hd
  split at h
  · rename_i hd
    cases h
    exact .number (numeral_isNumeral hd)
  split at h
  · cases h
  split at h
  · unfold token? at h
    split at h
    · rename_i k hk
      obtain ⟨rfl, body, hbody, htext⟩ := quotation_token hk
      cases h
      rw [htext]
      have hlit : literal? .string ('"' :: (body ++ ['"'])) =
          some (.string (String.ofList body)) := by
        simp [literal?]
      rw [hlit]
      exact .string hbody
    · cases h
  split at h
  · cases h
  · unfold mark? at h
    cases hm : marks.find? fun m => m.1.isPrefixOf (c :: cs) with
    | none =>
      rw [hm] at h
      cases h
    | some m =>
      have hmem := List.mem_of_find?_eq_some hm
      have ht : t = ⟨m.2, String.ofList m.1, literal? m.2 m.1, line⟩ := by
        rw [hm] at h
        exact (Option.some.inj h).symm
      rw [ht, Kind.literal?_of_mem_marks m hmem]
      exact .mark hmem

end Segment

theorem genuine_of_mem_segmentsUpTo {t : Token} (bound line : Nat) (cs : List Char)
    (h : t ∈ (withLines line (segmentsUpTo bound cs)).filterMap fun s => s.1.token? s.2) :
    t.Genuine := by
  induction bound generalizing line cs with
  | zero => cases cs <;> cases h
  | succ bound ih =>
    cases cs with
    | nil => cases h
    | cons c cs =>
      obtain ⟨s, hs, ht⟩ := List.mem_filterMap.1 h
      rcases List.mem_cons.1 hs with rfl | hs
      · exact Segment.genuine_of_token? ht
      · exact ih _ _ (List.mem_filterMap.2 ⟨s, hs, ht⟩)

/-- The tokens of a text are genuine, but for the one that closes it. -/
theorem Token.genuine_of_mem {text : String} {t : Token} (h : t ∈ ofText text)
    (hk : t.kind ≠ .eof) : t.Genuine := by
  rcases List.mem_append.1 h with h | h
  · exact genuine_of_mem_segmentsUpTo _ _ _ h
  · rw [List.mem_singleton.1 h] at hk
    exact absurd rfl hk

theorem Token.genuine_of_mem_dropLast {text : String} {t : Token} (h : t ∈ (ofText text).dropLast) :
    t.Genuine := by
  rw [ofText, List.dropLast_concat] at h
  exact genuine_of_mem_segmentsUpTo _ _ _ h

/-! ## What a genuine token is -/

theorem Number.IsNumeral.newlines {cs : List Char} (h : IsNumeral cs) : Text.newlines cs = 0 := by
  have hdigits : ∀ {ds : List Char}, Digits ds → '\n' ∉ ds := by
    intro ds hd hmem
    exact absurd (hd _ hmem) (by decide)
  apply List.count_eq_zero_of_not_mem
  cases h with
  | whole _ hd => exact hdigits hd
  | fraction _ hd _ hd' => simp [hdigits hd, hdigits hd']

namespace Token

/-- The line of a token does not matter. -/
theorem Genuine.onLine {t : Token} (h : t.Genuine) (line : Nat) :
    Genuine { t with line := line } := by
  cases h with
  | word hw hcs => exact .word hw hcs
  | number hn => exact .number hn
  | string hb => exact .string hb
  | mark hm => exact .mark hm

/-- A keyword or a mark is given by its kind. -/
theorem Genuine.eq_fixed {t : Token} {text : String} (h : t.Genuine) (hk : t.kind.text? = some text) :
    t = ⟨t.kind, text, none, t.line⟩ := by
  cases h with
  | @word c cs line hw hcs =>
    rcases Kind.ofWord_eq (String.ofList (c :: cs)) with hi | hm
    · rw [hi] at hk
      cases hk
    · rw [Kind.text?_of_mem_keywords _ hm] at hk
      cases hk
      rfl
  | number => cases hk
  | string => cases hk
  | mark hm =>
    rw [Kind.text?_of_mem_marks _ hm] at hk
    cases hk
    rfl

theorem Genuine.kind_ne_eof {t : Token} (h : t.Genuine) : t.kind ≠ .eof := by
  have hmarks : ∀ m ∈ marks, m.2 ≠ .eof := by decide
  cases h with
  | word => exact Kind.ofWord_ne (by decide) (by decide) _
  | number => exact Kind.noConfusion
  | string => exact Kind.noConfusion
  | mark hm => exact hmarks _ hm

/-- A string denotes what stands between its quotes. -/
theorem Genuine.string_literal {t : Token} (h : t.Genuine) (hk : t.kind = .string) :
    ∃ s, t = ⟨.string, "\"" ++ s ++ "\"", some (.string s), t.line⟩ := by
  cases h with
  | word => exact absurd hk (Kind.ofWord_ne (by decide) (by decide) _)
  | number => cases hk
  | @string body line hb =>
    refine ⟨String.ofList body, ?_⟩
    have htext : String.ofList ('"' :: (body ++ ['"'])) = "\"" ++ String.ofList body ++ "\"" := by
      apply String.toList_injective
      simp
    rw [htext]
  | mark hm =>
    have hmarks : ∀ m ∈ marks, m.2 ≠ .string := by decide
    exact absurd hk (hmarks _ hm)

/-- A number is a numeral, and denotes what its digits do. -/
theorem Genuine.isNumeral {t : Token} (h : t.Genuine) (hk : t.kind = .number) :
    Number.IsNumeral t.lexeme.toList ∧
      t.literal = some (.number ((Number.ofText? t.lexeme).getD 0)) := by
  cases h with
  | word => exact absurd hk (Kind.ofWord_ne (by decide) (by decide) _)
  | number hn => exact ⟨by rwa [String.toList_ofList], rfl⟩
  | string => cases hk
  | mark hm =>
    have hmarks : ∀ m ∈ marks, m.2 ≠ .number := by decide
    exact absurd hk (hmarks _ hm)

/-- A number denotes a magnitude, which may be infinite. -/
theorem Genuine.number_literal {t : Token} (h : t.Genuine) (hk : t.kind = .number) :
    ∃ r, r ≤ Number.infinityRank ∧ t.literal = some (.number (Number.ofRank false r)) := by
  obtain ⟨hn, hlit⟩ := h.isNumeral hk
  obtain ⟨r, hr, ht⟩ := hn.ofText?
  rw [String.ofList_toList] at ht
  exact ⟨r, hr, by rw [hlit, ht]; rfl⟩

/-- The number token for a magnitude that is finite. -/
theorem genuine_number {r : Nat} (h : Number.isFinite (Number.ofRank false r) = true)
    (hr : r ≤ Number.infinityRank) (line : Nat) :
    Genuine ⟨.number, Number.toText (Number.ofRank false r),
      some (.number (Number.ofRank false r)), line⟩ := by
  obtain ⟨hn, ht⟩ := Number.ofText?_toText h hr
  have hg := @Genuine.number _ line hn
  rw [String.ofList_toList, ht] at hg
  exact hg

/-- A text that starts like a word and goes on like one is a word. -/
theorem genuine_word {text : String} (hstart : text.toList.head?.any startsWord = true)
    (hall : text.toList.all inWord = true) (line : Nat) :
    Genuine ⟨Kind.ofWord text, text, none, line⟩ := by
  obtain ⟨cs, rfl⟩ : ∃ cs, text = String.ofList cs := ⟨_, String.ofList_toList.symm⟩
  rw [String.toList_ofList] at hstart hall
  cases cs with
  | nil => cases hstart
  | cons c cs =>
    rw [List.all_cons, Bool.and_eq_true] at hall
    exact .word (by simpa using hstart) (List.all_eq_true.1 hall.2)

theorem genuine_fixed {k : Kind} {text : String} (h : k.text? = some text) (line : Nat) :
    Genuine ⟨k, text, none, line⟩ := by
  have hk : (text, k) ∈ Kind.keywords ∨ (text.toList, k) ∈ marks := by
    cases k
    all_goals cases h
    all_goals decide
  rcases hk with hm | hm
  · obtain ⟨hword, hstart, hall⟩ := Kind.word_of_mem_keywords _ hm
    have hgenuine := genuine_word hstart hall line
    rw [hword] at hgenuine
    exact hgenuine
  · have hgenuine := @Genuine.mark _ line hm
    rw [String.ofList_toList] at hgenuine
    exact hgenuine

/-! ## Reading a genuine token again -/

theorem not_startsWord_of_isDigit {c : Char} (h : c.isDigit = true) : startsWord c = false := by
  have hne : c ≠ '_' := Number.ne_of_isDigit h rfl
  have hd : 48 ≤ c.toNat ∧ c.toNat ≤ 57 := Char.isDigit_iff_toNat.1 h
  rw [← Bool.not_eq_true, startsWord_iff]
  rintro (hc | hc | rfl)
  · omega
  · omega
  · exact hne rfl

theorem numeral_append {as bs : List Char} (h : Number.IsNumeral as)
    (hb : ∀ c ∈ bs.head?, c.isDigit = false ∧ c ≠ '.') : Segment.numeral (as ++ bs) = as := by
  have hdigit : ∀ c ∈ bs.head?, c.isDigit = false := fun c hc => (hb c hc).1
  unfold Segment.numeral
  cases h with
  | whole hne hd =>
    obtain ⟨htake, hdrop⟩ := hd.takeWhile_append bs hdigit
    rw [htake, hdrop]
    split
    · exact absurd rfl (hb _ rfl).2
    · rfl
  | @fraction cs ds hne hd hne' hd' =>
    obtain ⟨htake, hdrop⟩ := hd.takeWhile_append ('.' :: (ds ++ bs)) (by simp)
    obtain ⟨htake', -⟩ := hd'.takeWhile_append bs hdigit
    have hfalse : ds.isEmpty = false := List.isEmpty_eq_false_iff.2 hne'
    rw [List.append_assoc, List.cons_append, htake, hdrop]
    show (if (List.takeWhile Char.isDigit (ds ++ bs)).isEmpty = true then cs
      else cs ++ '.' :: List.takeWhile Char.isDigit (ds ++ bs)) = cs ++ '.' :: ds
    rw [htake', hfalse]
    rfl

theorem quotation_append {body : List Char} (h : '"' ∉ body) (cs : List Char) :
    Segment.quotation (body ++ '"' :: cs) = ⟨.token .string, '"' :: (body ++ ['"'])⟩ := by
  have hsplit := @takeWhile_append_stop _ (fun c => decide (c ≠ '"')) body ('"' :: cs)
    (by
      intro c hc
      exact decide_eq_true fun he => h (he ▸ hc))
    (by simp)
  unfold Segment.quotation
  rw [hsplit.1, hsplit.2]

/-- A mark is found where nothing behind it makes it a longer one. -/
theorem first_mark {m : List Char × Kind} (hm : m ∈ marks) {cs : List Char}
    (hc : ∀ c ∈ cs.head?, m.2.extendedBy c = false) :
    ∃ c w, m.1 = c :: w ∧ Segment.first c (w ++ cs) = ⟨.token m.2, c :: w⟩ := by
  simp only [marks, List.mem_cons, List.not_mem_nil, or_false] at hm
  rcases hm with rfl | rfl | rfl | rfl | rfl | rfl | rfl | rfl | rfl | rfl | rfl | rfl | rfl | rfl |
    rfl | rfl | rfl | rfl | rfl | rfl
  -- Only a mark with which a longer one or a comment begins looks at what follows.
  all_goals first
    | exact ⟨_, _, rfl, rfl⟩
    | refine ⟨_, _, rfl, ?_⟩
  all_goals cases cs with
    | nil => rfl
    | cons d ds =>
      have hd := hc d rfl
      simp only [Kind.extendedBy, beq_eq_false_iff_ne] at hd
      simp [Segment.first, startsWord, Segment.mark?, marks, hd, Ne.symm hd]
      try decide

/-- A genuine token is what is read first where its lexeme stands before a character that does not
extend it. -/
theorem Genuine.stands {t : Token} {cs : List Char} (h : t.Genuine)
    (hc : ∀ c ∈ cs.head?, t.kind.extendedBy c = false) : t.Stands cs := by
  cases h with
  | @word c w line hw hall =>
    rw [Kind.extendedBy_ofWord] at hc
    refine ⟨c, w, String.toList_ofList, ?_, (Kind.literal?_ofWord _ _).symm⟩
    rw [Segment.first, if_pos hw, (takeWhile_append_stop hall hc).1]
  | @number w line hn =>
    obtain ⟨c, rest, rfl, hd⟩ := hn.head
    refine ⟨c, rest, String.toList_ofList, ?_, rfl⟩
    rw [Segment.first, if_neg (by rw [not_startsWord_of_isDigit hd]; decide), if_pos hd,
      ← List.cons_append, numeral_append hn fun c hcs => by simpa [Kind.extendedBy] using hc c hcs]
  | @string body line hb =>
    refine ⟨'"', body ++ ['"'], String.toList_ofList, ?_, by simp [Segment.literal?]⟩
    rw [List.append_assoc]
    exact quotation_append hb cs
  | @mark m line hm =>
    obtain ⟨c, w, hcw, hf⟩ := first_mark hm hc
    refine ⟨c, w, ?_, hf, ?_⟩
    · rw [String.toList_ofList, hcw]
    · rw [← hcw, Kind.literal?_of_mem_marks m hm]

end Token

end LoxLang
