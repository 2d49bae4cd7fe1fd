import LoxLang.Proofs.Number.Numeral
import LoxLang.Token.Segment

/-!
The table of patterns by which a text is cut.

A pattern matches some texts (`Pattern.Matches`).  At the beginning of a text it may match in several
ways; `Pattern.ways` lists them in the order of preference, in which a repetition takes as much as it
can and an optional part is there if it can be.  Nothing is missing from this list and nothing in it is
wrong (`mem_ways`).

The rows of the table are tried in their order, and the first one that matches decides (`firstRow?`):
its handling makes a segment of the preferred match.
-/

namespace LoxLang

inductive Pattern
  /-- This very text. -/
  | text (cs : List Char)
  /-- One character of a class. -/
  | one (p : Char → Bool)
  /-- Any number of characters of a class. -/
  | many (p : Char → Bool)
  | optional (inner : Pattern)
  | sequence (first second : Pattern)

namespace Pattern

/-- At least one character of a class. -/
def some (p : Char → Bool) : Pattern := .sequence (.one p) (.many p)

/-- The texts that a pattern describes. -/
inductive Matches : Pattern → List Char → Prop
  | text {cs} : Matches (.text cs) cs
  | one {p : Char → Bool} {c} : p c = true → Matches (.one p) [c]
  | many {p : Char → Bool} {cs} : (∀ c ∈ cs, p c = true) → Matches (.many p) cs
  | absent {r} : Matches (.optional r) []
  | present {r cs} : Matches r cs → Matches (.optional r) cs
  | sequence {r s cs ds} : Matches r cs → Matches s ds → Matches (.sequence r s) (cs ++ ds)

/-! ## Matching at the beginning of a text -/

/-- A match at the beginning of a text, and the rest of the text. -/
abbrev Way := List Char × List Char

/-- The beginnings that are in a class, the longest first. -/
def runs (p : Char → Bool) : List Char → List Way
  | [] => [([], [])]
  | c :: cs => (if p c then (runs p cs).map fun w => (c :: w.1, w.2) else []) ++ [([], c :: cs)]

/-- The ways in which a pattern matches at the beginning of a text, the preferred one first. -/
def ways : Pattern → List Char → List Way
  | .text t, cs => if t.isPrefixOf cs then [(t, cs.drop t.length)] else []
  | .one _, [] => []
  | .one p, c :: cs => if p c then [([c], cs)] else []
  | .many p, cs => runs p cs
  | .optional r, cs => r.ways cs ++ [([], cs)]
  | .sequence r s, cs =>
    (r.ways cs).flatMap fun w => (s.ways w.2).map fun v => (w.1 ++ v.1, v.2)

/-- The preferred match at the beginning of a text. -/
def find? (r : Pattern) (cs : List Char) : Option (List Char) := (r.ways cs).head?.map Prod.fst

theorem mem_runs {p : Char → Bool} {cs u rest : List Char} :
    (u, rest) ∈ runs p cs ↔ cs = u ++ rest ∧ ∀ c ∈ u, p c = true := by
  induction cs generalizing u with
  | nil =>
    rw [runs, List.mem_singleton, Prod.mk.injEq]
    constructor
    · rintro ⟨rfl, rfl⟩
      simp
    · rintro ⟨h, -⟩
      simpa using h.symm
  | cons c cs ih =>
    rw [runs, List.mem_append, List.mem_singleton]
    cases u with
    | nil =>
      constructor
      · rintro (h | h)
        · split at h
          · obtain ⟨w, -, hw⟩ := List.mem_map.1 h
            cases hw
          · cases h
        · exact ⟨(Prod.mk.inj h).2.symm, fun d hd => nomatch hd⟩
      · rintro ⟨hcs, -⟩
        exact .inr (congrArg (([], ·)) hcs.symm)
    | cons d u =>
      constructor
      · rintro (h | h)
        · split at h
          · rename_i hc
            obtain ⟨w, hw, hdu⟩ := List.mem_map.1 h
            cases hdu
            obtain ⟨hcs, hall⟩ := ih.1 hw
            exact ⟨congrArg (c :: ·) hcs, List.forall_mem_cons.2 ⟨hc, hall⟩⟩
          · cases h
        · cases h
      · rintro ⟨hcs, hall⟩
        obtain ⟨rfl, htail⟩ := List.cons.inj hcs
        obtain ⟨hc, hu⟩ := List.forall_mem_cons.1 hall
        rw [if_pos hc]
        exact .inl (List.mem_map_of_mem (ih.2 ⟨htail, hu⟩))

/-- The ways are the beginnings that the pattern describes. -/
theorem mem_ways {r : Pattern} {cs u rest : List Char} :
    (u, rest) ∈ r.ways cs ↔ cs = u ++ rest ∧ r.Matches u := by
  induction r generalizing cs u rest with
  | text t =>
    rw [ways]
    constructor
    · intro h
      split at h
      · rename_i hp
        obtain ⟨after, rfl⟩ := List.isPrefixOf_iff_prefix.1 hp
        rw [List.mem_singleton, Prod.mk.injEq, List.drop_left] at h
        obtain ⟨rfl, rfl⟩ := h
        exact ⟨rfl, .text⟩
      · cases h
    · rintro ⟨rfl, h⟩
      cases h
      rw [if_pos (List.isPrefixOf_iff_prefix.2 (List.prefix_append _ _)), List.drop_left]
      exact List.mem_singleton.2 rfl
  | one p =>
    constructor
    · intro h
      cases cs with
      | nil => cases h
      | cons c cs =>
        rw [ways] at h
        split at h
        · rename_i hc
          rw [List.mem_singleton, Prod.mk.injEq] at h
          obtain ⟨rfl, rfl⟩ := h
          exact ⟨rfl, .one hc⟩
        · cases h
    · rintro ⟨rfl, h⟩
      cases h with
      | one hc => simp [ways, hc]
  | many p =>
    rw [ways, mem_runs]
    constructor
    · rintro ⟨h, hu⟩
      exact ⟨h, .many hu⟩
    · rintro ⟨h, hu⟩
      cases hu with
      | many hu => exact ⟨h, hu⟩
  | optional r ih =>
    rw [ways, List.mem_append, ih, List.mem_singleton, Prod.mk.injEq]
    constructor
    · rintro (⟨h, hu⟩ | ⟨rfl, rfl⟩)
      · exact ⟨h, .present hu⟩
      · exact ⟨rfl, .absent⟩
    · rintro ⟨rfl, hu⟩
      cases hu with
      | absent => exact .inr ⟨rfl, rfl⟩
      | present hu => exact .inl ⟨rfl, hu⟩
  | sequence r s ihr ihs =>
    simp only [ways, List.mem_flatMap, List.mem_map, Prod.mk.injEq, Prod.exists]
    constructor
    · rintro ⟨a, between, ha, b, after, hb, rfl, rfl⟩
      obtain ⟨hcs, hra⟩ := ihr.1 ha
      obtain ⟨hbetween, hsb⟩ := ihs.1 hb
      rw [hcs, hbetween, List.append_assoc]
      exact ⟨rfl, .sequence hra hsb⟩
    · rintro ⟨rfl, hu⟩
      cases hu with
      | @sequence _ _ a b ha hb =>
        exact ⟨a, b ++ rest, ihr.2 ⟨List.append_assoc _ _ _, ha⟩, b, rest, ihs.2 ⟨rfl, hb⟩, rfl, rfl⟩

theorem find?_eq_none {r : Pattern} {cs : List Char} :
    r.find? cs = none ↔ ∀ u, u <+: cs → ¬ r.Matches u := by
  rw [find?, Option.map_eq_none_iff, List.head?_eq_none_iff]
  constructor
  · rintro h u ⟨rest, rfl⟩ hu
    have hmem : (u, rest) ∈ r.ways (u ++ rest) := mem_ways.2 ⟨rfl, hu⟩
    rw [h] at hmem
    cases hmem
  · intro h
    refine List.eq_nil_iff_forall_not_mem.2 fun w hw => ?_
    obtain ⟨rfl, hu⟩ := mem_ways.1 hw
    exact h _ (List.prefix_append _ _) hu

theorem find?_eq_some {r : Pattern} {cs u : List Char} (h : r.find? cs = Option.some u) :
    u <+: cs ∧ r.Matches u := by
  obtain ⟨w, hw, rfl⟩ := Option.map_eq_some_iff.1 h
  obtain ⟨hcs, hu⟩ := mem_ways.1 (List.mem_of_head? hw)
  exact ⟨⟨w.2, hcs.symm⟩, hu⟩

end Pattern

/-! ## The table -/

/-- What is made of a match. -/
inductive Handling
  /-- A keyword or an identifier. -/
  | word
  | number
  | blank
  | string
  | unterminated
  | comment
  /-- A mark, with its lexeme; the match itself is not looked at again. -/
  | mark (kind : Kind) (lexeme : List Char)

/-- The segment that is made of a match. -/
def Handling.segment (matched : List Char) : Handling → Segment
  | .word => ⟨.token (Kind.ofWord (String.ofList matched)), matched⟩
  | .number => ⟨.token .number, matched⟩
  | .blank => ⟨.blank, matched⟩
  | .string => ⟨.token .string, matched⟩
  | .unterminated => ⟨.unterminated, matched⟩
  | .comment => ⟨.comment, matched⟩
  | .mark kind lexeme => ⟨.token kind, lexeme⟩

structure Row where
  pattern : Pattern
  handling : Handling

namespace Pattern

def word : Pattern := .sequence (.one startsWord) (.many inWord)

/-- Digits, with a fraction or without. -/
def numeral : Pattern :=
  .sequence (.some Char.isDigit) (.optional (.sequence (.text ['.']) (.some Char.isDigit)))

def blanks : Pattern := .some Text.isBlank

def quoted : Pattern := .sequence (.text ['"']) (.sequence (.many (· ≠ '"')) (.text ['"']))

/-- A quote, and all that follows it up to the next one. -/
def unclosed : Pattern := .sequence (.text ['"']) (.many (· ≠ '"'))

def comment : Pattern := .sequence (.text ['/', '/']) (.many (· ≠ '\n'))

end Pattern

/-- The patterns in the order in which they are tried. -/
def rows : List Row :=
  [⟨.word, .word⟩, ⟨.numeral, .number⟩, ⟨.blanks, .blank⟩, ⟨.quoted, .string⟩,
    ⟨.unclosed, .unterminated⟩, ⟨.comment, .comment⟩,
    ⟨.text ['{'], .mark .openCurly ['{']⟩, ⟨.text ['}'], .mark .closeCurly ['}']⟩,
    ⟨.text ['('], .mark .openParen ['(']⟩, ⟨.text [')'], .mark .closeParen [')']⟩,
    ⟨.text ['=', '='], .mark .equals ['=', '=']⟩,
    ⟨.text ['!', '='], .mark .notEquals ['!', '=']⟩,
    ⟨.text ['!'], .mark .not ['!']⟩, ⟨.text ['='], .mark .assignment ['=']⟩,
    ⟨.text ['<', '='], .mark .lessEquals ['<', '=']⟩, ⟨.text ['<'], .mark .less ['<']⟩,
    ⟨.text ['>', '='], .mark .greaterEquals ['>', '=']⟩, ⟨.text ['>'], .mark .greater ['>']⟩,
    ⟨.text ['.'], .mark .dot ['.']⟩, ⟨.text [';'], .mark .semicolon [';']⟩,
    ⟨.text [','], .mark .comma [',']⟩, ⟨.text ['+'], .mark .plus ['+']⟩,
    ⟨.text ['-'], .mark .dash ['-']⟩, ⟨.text ['/'], .mark .slash ['/']⟩,
    ⟨.text ['*'], .mark .star ['*']⟩, ⟨.text ['%'], .mark .percent ['%']⟩]

/-- The first row that matches at the beginning of a text, and its preferred match. -/
def firstRow? (cs : List Char) : Option (Row × List Char) :=
  rows.findSome? fun row => (row.pattern.find? cs).map (row, ·)

/-- The segment that the first row makes. -/
def firstCut? (cs : List Char) : Option Segment :=
  (firstRow? cs).map fun found => found.1.handling.segment found.2

theorem rows_eq :
    rows = [⟨.word, .word⟩, ⟨.numeral, .number⟩, ⟨.blanks, .blank⟩, ⟨.quoted, .string⟩,
      ⟨.unclosed, .unterminated⟩, ⟨.comment, .comment⟩] ++
      marks.map fun m => ⟨.text m.1, .mark m.2 m.1⟩ := rfl

theorem mem_rows {row : Row} :
    row ∈ rows ↔ row = ⟨.word, .word⟩ ∨ row = ⟨.numeral, .number⟩ ∨ row = ⟨.blanks, .blank⟩ ∨
      row = ⟨.quoted, .string⟩ ∨ row = ⟨.unclosed, .unterminated⟩ ∨ row = ⟨.comment, .comment⟩ ∨
      ∃ m ∈ marks, row = ⟨.text m.1, .mark m.2 m.1⟩ := by
  simp only [rows_eq, List.cons_append, List.nil_append, List.mem_cons, List.mem_map, eq_comm]

/-! ## What the patterns of the table describe -/

namespace Pattern

theorem matches_text {t u : List Char} : (text t).Matches u ↔ u = t := by
  constructor
  · rintro ⟨⟩
    rfl
  · rintro rfl
    exact .text

/-- A character of one class and then characters of another one. -/
theorem matches_led {p q : Char → Bool} {u : List Char} :
    (sequence (.one p) (.many q)).Matches u ↔
      ∃ c w, u = c :: w ∧ p c = true ∧ ∀ d ∈ w, q d = true := by
  constructor
  · intro h
    cases h with
    | sequence hone hmany =>
      cases hone with
      | one hc =>
        cases hmany with
        | many hw => exact ⟨_, _, rfl, hc, hw⟩
  · rintro ⟨c, w, rfl, hc, hw⟩
    exact .sequence (.one hc) (.many hw)

theorem matches_some {p : Char → Bool} {u : List Char} :
    (some p).Matches u ↔ u ≠ [] ∧ ∀ c ∈ u, p c = true := by
  rw [some, matches_led]
  constructor
  · rintro ⟨c, w, rfl, hc, hw⟩
    exact ⟨List.cons_ne_nil _ _, List.forall_mem_cons.2 ⟨hc, hw⟩⟩
  · rintro ⟨hne, hall⟩
    obtain ⟨c, w, rfl⟩ := List.exists_cons_of_ne_nil hne
    obtain ⟨hc, hw⟩ := List.forall_mem_cons.1 hall
    exact ⟨c, w, rfl, hc, hw⟩

/-- A text and then characters of a class. -/
theorem matches_opened {t : List Char} {p : Char → Bool} {u : List Char} :
    (sequence (.text t) (.many p)).Matches u ↔ ∃ w, u = t ++ w ∧ ∀ d ∈ w, p d = true := by
  constructor
  · intro h
    cases h with
    | sequence htext hmany =>
      cases hmany with
      | many hw => exact ⟨_, congrArg (· ++ _) (matches_text.1 htext), hw⟩
  · rintro ⟨w, rfl, hw⟩
    exact .sequence .text (.many hw)

theorem matches_numeral {u : List Char} : numeral.Matches u ↔ Number.IsNumeral u := by
  constructor
  · intro h
    cases h with
    | sequence hwhole hrest =>
      obtain ⟨hne, hdigits⟩ := matches_some.1 hwhole
      cases hrest with
      | absent =>
        rw [List.append_nil]
        exact .whole hne hdigits
      | present hfraction =>
        cases hfraction with
        | sequence hpoint htail =>
          obtain ⟨hne', hdigits'⟩ := matches_some.1 htail
          rw [matches_text.1 hpoint]
          exact .fraction hne hdigits hne' hdigits'
  · intro h
    cases h with
    | whole hne hdigits =>
      rw [← List.append_nil u]
      exact .sequence (matches_some.2 ⟨hne, hdigits⟩) .absent
    | fraction hne hdigits hne' hdigits' =>
      refine .sequence (matches_some.2 ⟨hne, hdigits⟩) (.present ?_)
      have hpoint : Matches (.text ['.']) ['.'] := .text
      exact hpoint.sequence (matches_some.2 ⟨hne', hdigits'⟩)

theorem decide_ne_of_not_mem {q : Char} {body : List Char} (h : q ∉ body) :
    ∀ c ∈ body, decide (c ≠ q) = true := fun _ hc => decide_eq_true fun he => h (he ▸ hc)

theorem matches_quoted {u : List Char} :
    quoted.Matches u ↔ ∃ body, u = '"' :: (body ++ ['"']) ∧ '"' ∉ body := by
  constructor
  · intro h
    cases h with
    | sequence hopen hrest =>
      cases hrest with
      | @sequence _ _ body _ hbody hclose =>
        rw [matches_text.1 hopen, matches_text.1 hclose]
        refine ⟨body, rfl, fun hmem => ?_⟩
        cases hbody with
        | many hall => exact absurd (hall _ hmem) (by decide)
  · rintro ⟨body, rfl, hbody⟩
    have hopen : Matches (.text ['"']) ['"'] := .text
    exact hopen.sequence (.sequence (.many (decide_ne_of_not_mem hbody)) .text)

theorem matches_unclosed {u : List Char} :
    unclosed.Matches u ↔ ∃ body, u = '"' :: body ∧ '"' ∉ body := by
  rw [unclosed, matches_opened]
  refine exists_congr fun body => and_congr Iff.rfl ?_
  constructor
  · intro hall hmem
    exact absurd (hall _ hmem) (by decide)
  · exact decide_ne_of_not_mem

theorem matches_comment {u : List Char} :
    comment.Matches u ↔ ∃ body, u = '/' :: '/' :: body ∧ '\n' ∉ body := by
  rw [comment, matches_opened]
  refine exists_congr fun body => and_congr Iff.rfl ?_
  constructor
  · intro hall hmem
    exact absurd (hall _ hmem) (by decide)
  · exact decide_ne_of_not_mem

end Pattern

end LoxLang
