import LoxLang.Proofs.Token.Genuine
import LoxLang.Proofs.Token.Pattern

/-!
The first segment of a text is what the table of patterns makes of it.

`Segment.first` decides by the first character; the table is tried row by row.  Both find the same
segment (`Segment.first_eq_firstCut?`).  A row takes the longest match that it has, and a row that
stands before another one does not match less than it, so the first match is the longest one of the
whole table (`Segment.length_le_first`).  A match, cut out of its text, is cut by the table as the
same segment (`Segment.first_of_matches`).
-/

namespace LoxLang

/-! ## Digits behind a point -/

namespace Segment

/-- A point and the digits behind it, if there are any. -/
def fraction : List Char → List Char
  | '.' :: ds => if (ds.takeWhile Char.isDigit).isEmpty then [] else '.' :: ds.takeWhile Char.isDigit
  | _ => []

theorem fraction_point (ds : List Char) :
    fraction ('.' :: ds) =
      if (ds.takeWhile Char.isDigit).isEmpty then [] else '.' :: ds.takeWhile Char.isDigit := rfl

theorem fraction_ne {d : Char} (hd : d ≠ '.') (ds : List Char) : fraction (d :: ds) = [] := by
  unfold fraction
  split
  · rename_i he
    exact absurd (List.cons.inj he).1 hd
  · rfl

theorem numeral_eq (cs : List Char) :
    numeral cs = cs.takeWhile Char.isDigit ++ fraction (cs.dropWhile Char.isDigit) := by
  unfold numeral
  split
  · rename_i rest hrest
    rw [hrest, fraction_point]
    dsimp only
    split
    · rw [List.append_nil]
    · rfl
  · rename_i hother
    cases hafter : cs.dropWhile Char.isDigit with
    | nil => exact (List.append_nil _).symm
    | cons d ds =>
      have hd : d ≠ '.' := fun he => hother ds (by rw [hafter, he])
      rw [fraction_ne hd, List.append_nil]

end Segment

/-! ## The preferred match of a row -/

namespace Pattern

theorem head?_runs (p : Char → Bool) (cs : List Char) :
    (runs p cs).head? = Option.some (cs.takeWhile p, cs.dropWhile p) := by
  induction cs with
  | nil => rfl
  | cons c cs ih =>
    by_cases hc : p c = true
    · rw [runs, if_pos hc, List.head?_append, List.head?_map, ih, List.takeWhile_cons_of_pos hc,
        List.dropWhile_cons_of_pos hc]
      rfl
    · rw [runs, if_neg hc, List.takeWhile_cons_of_neg hc, List.dropWhile_cons_of_neg hc]
      rfl

theorem head?_many (p : Char → Bool) (cs : List Char) :
    ((many p).ways cs).head? = Option.some (cs.takeWhile p, cs.dropWhile p) := by
  rw [ways, head?_runs]

theorem head?_sequence {r s : Pattern} {cs : List Char} {w v : Way}
    (hw : (r.ways cs).head? = Option.some w) (hv : (s.ways w.2).head? = Option.some v) :
    ((sequence r s).ways cs).head? = Option.some (w.1 ++ v.1, v.2) := by
  obtain ⟨others, hways⟩ := List.head?_eq_some_iff.1 hw
  rw [ways, hways, List.flatMap_cons, List.head?_append, List.head?_map, hv]
  rfl

theorem find?_text (t cs : List Char) :
    (text t).find? cs = if t.isPrefixOf cs then Option.some t else none := by
  rw [find?, ways]
  split
  · rfl
  · rfl

theorem head?_led {p q : Char → Bool} {c : Char} (hc : p c = true) (cs : List Char) :
    ((sequence (.one p) (.many q)).ways (c :: cs)).head? =
      Option.some (c :: cs.takeWhile q, cs.dropWhile q) := by
  have hone : ((one p).ways (c :: cs)).head? = Option.some ([c], cs) := by
    rw [ways, if_pos hc]
    rfl
  exact head?_sequence hone (head?_many q cs)

theorem head?_some {p : Char → Bool} {c : Char} (hc : p c = true) (cs : List Char) :
    ((some p).ways (c :: cs)).head? = Option.some (c :: cs.takeWhile p, cs.dropWhile p) :=
  head?_led hc cs

theorem find?_led (p q : Char → Bool) (c : Char) (cs : List Char) :
    (sequence (.one p) (.many q)).find? (c :: cs) =
      if p c then Option.some (c :: cs.takeWhile q) else none := by
  split
  · rename_i hc
    rw [find?, head?_led hc]
    rfl
  · rename_i hc
    rw [find?_eq_none]
    intro u hu hm
    obtain ⟨d, w, rfl, hd, -⟩ := matches_led.1 hm
    rw [(List.cons_prefix_cons.1 hu).1] at hd
    exact hc hd

theorem find?_opened (t : List Char) (p : Char → Bool) (cs : List Char) :
    (sequence (.text t) (.many p)).find? cs =
      if t.isPrefixOf cs then Option.some (t ++ (cs.drop t.length).takeWhile p) else none := by
  split
  · rename_i ht
    have htext : ((text t).ways cs).head? = Option.some (t, cs.drop t.length) := by
      rw [ways, if_pos ht]
      rfl
    rw [find?, head?_sequence htext (head?_many p _)]
    rfl
  · rename_i ht
    rw [find?_eq_none]
    intro u hu hm
    obtain ⟨w, rfl, -⟩ := matches_opened.1 hm
    exact ht (List.isPrefixOf_iff_prefix.2 ((List.prefix_append t w).trans hu))

/-- A fraction is there if a digit follows the point. -/
theorem head?_fraction (cs : List Char) :
    ((optional (.sequence (.text ['.']) (.some Char.isDigit))).ways cs).head?.map Prod.fst =
      Option.some (Segment.fraction cs) := by
  have hpoint : ∀ u, (sequence (.text ['.']) (.some Char.isDigit)).Matches u →
      ∃ d ds, u = '.' :: d :: ds ∧ d.isDigit = true := by
    intro u hu
    cases hu with
    | sequence htext hdigits =>
      obtain ⟨hne, hall⟩ := matches_some.1 hdigits
      obtain ⟨d, ds, rfl⟩ := List.exists_cons_of_ne_nil hne
      exact ⟨d, ds, by rw [matches_text.1 htext]; rfl, hall d List.mem_cons_self⟩
  by_cases hthere : ∃ d ds, cs = '.' :: d :: ds ∧ d.isDigit = true
  · obtain ⟨d, ds, rfl, hd⟩ := hthere
    have htext : ((text ['.']).ways ('.' :: d :: ds)).head? = Option.some (['.'], d :: ds) := rfl
    rw [ways, List.head?_append, head?_sequence htext (head?_some hd ds), Segment.fraction_point,
      List.takeWhile_cons_of_pos hd]
    rfl
  · have hfind : (sequence (.text ['.']) (.some Char.isDigit)).find? cs = none := by
      rw [find?_eq_none]
      rintro u ⟨rest, rfl⟩ hm
      obtain ⟨d, ds, rfl, hd⟩ := hpoint u hm
      exact hthere ⟨d, ds ++ rest, rfl, hd⟩
    rw [find?, Option.map_eq_none_iff, List.head?_eq_none_iff] at hfind
    rw [ways, hfind]
    show Option.some [] = _
    cases cs with
    | nil => rfl
    | cons d ds =>
      by_cases hd : d = '.'
      · subst hd
        cases ds with
        | nil => rfl
        | cons e es =>
          have he : ¬ e.isDigit = true := fun he => hthere ⟨e, es, rfl, he⟩
          rw [Segment.fraction_point, List.takeWhile_cons_of_neg he]
          rfl
      · rw [Segment.fraction_ne hd]

theorem find?_numeral (c : Char) (cs : List Char) :
    numeral.find? (c :: cs) =
      if c.isDigit then Option.some (Segment.numeral (c :: cs)) else none := by
  split
  · rename_i hc
    obtain ⟨w, hw, hfst⟩ := Option.map_eq_some_iff.1 (head?_fraction (cs.dropWhile Char.isDigit))
    rw [numeral, find?, head?_sequence (head?_some hc cs) hw, Option.map_some, hfst,
      Segment.numeral_eq, List.takeWhile_cons_of_pos hc, List.dropWhile_cons_of_pos hc]
  · rename_i hc
    rw [find?_eq_none]
    intro u hu hm
    obtain ⟨d, w, rfl, hd⟩ := (matches_numeral.1 hm).head
    rw [(List.cons_prefix_cons.1 hu).1] at hd
    exact hc hd

/-- A string is found if its closing quote is there. -/
theorem find?_quoted (c : Char) (cs : List Char) :
    quoted.find? (c :: cs) =
      if c = '"' ∧ '"' ∈ cs then Option.some (c :: (cs.takeWhile (· ≠ '"') ++ ['"'])) else none := by
  split
  · rename_i hclosed
    obtain ⟨rfl, hmem⟩ := hclosed
    obtain ⟨body, rest, rfl, hbody⟩ := List.eq_append_cons_of_mem hmem
    obtain ⟨htake, hdrop⟩ := @takeWhile_append_stop _ _ body ('"' :: rest)
      (decide_ne_of_not_mem hbody) (by simp)
    have hmany := head?_many (fun c => decide (c ≠ '"')) (body ++ '"' :: rest)
    have htext : ((text ['"']).ways ('"' :: (body ++ '"' :: rest))).head? =
        Option.some (['"'], body ++ '"' :: rest) := rfl
    have hquote : ((text ['"']).ways ('"' :: rest)).head? = Option.some (['"'], rest) := rfl
    rw [htake, hdrop] at hmany
    rw [htake, quoted, find?, head?_sequence htext (head?_sequence hmany hquote)]
    rfl
  · rename_i hopen
    rw [find?_eq_none]
    intro u hu hm
    obtain ⟨body, rfl, -⟩ := matches_quoted.1 hm
    obtain ⟨hc, hbody⟩ := List.cons_prefix_cons.1 hu
    exact hopen ⟨hc.symm, hbody.subset (List.mem_append_right _ List.mem_cons_self)⟩

theorem find?_unclosed (c : Char) (cs : List Char) :
    unclosed.find? (c :: cs) =
      if c = '"' then Option.some (c :: cs.takeWhile (· ≠ '"')) else none := by
  rw [unclosed, find?_opened]
  by_cases hc : c = '"'
  · subst hc
    rfl
  · simp [List.isPrefixOf, hc, Ne.symm hc]

theorem find?_comment (c : Char) (cs : List Char) :
    comment.find? (c :: cs) =
      if c = '/' && cs.head? = Option.some '/' then Option.some (c :: cs.takeWhile (· ≠ '\n'))
      else none := by
  rw [comment, find?_opened]
  cases cs with
  | nil => simp [List.isPrefixOf]
  | cons d ds =>
    by_cases hc : c = '/'
    · by_cases hd : d = '/'
      · subst hc hd
        rfl
      · simp [List.isPrefixOf, hd, Ne.symm hd]
    · simp [List.isPrefixOf, hc, Ne.symm hc]

end Pattern

/-! ## The first row that matches -/

theorem findSome?_marks (ms : List (List Char × Kind)) (cs : List Char) :
    ((ms.map fun m => (⟨.text m.1, .mark m.2 m.1⟩ : Row)).findSome? fun row =>
        (row.pattern.find? cs).map (row, ·)) =
      (ms.find? fun m => m.1.isPrefixOf cs).map fun m => (⟨.text m.1, .mark m.2 m.1⟩, m.1) := by
  induction ms with
  | nil => rfl
  | cons m ms ih =>
    rw [List.map_cons, List.findSome?_cons, List.find?_cons]
    dsimp only
    rw [Pattern.find?_text]
    by_cases hm : m.1.isPrefixOf cs = true
    · rw [if_pos hm, hm]
      rfl
    · rw [if_neg hm, Bool.eq_false_iff.2 hm]
      exact ih

namespace Segment

theorem quotation_eq (cs : List Char) :
    quotation cs =
      if '"' ∈ cs then ⟨.token .string, '"' :: (cs.takeWhile (· ≠ '"') ++ ['"'])⟩
      else ⟨.unterminated, '"' :: cs.takeWhile (· ≠ '"')⟩ := by
  split
  · rename_i hclosed
    obtain ⟨body, rest, rfl, hbody⟩ := List.eq_append_cons_of_mem hclosed
    obtain ⟨htake, -⟩ := @takeWhile_append_stop _ _ body ('"' :: rest)
      (Pattern.decide_ne_of_not_mem hbody) (by simp)
    rw [Token.quotation_append hbody, htake]
  · rename_i hopen
    have hdrop : cs.dropWhile (· ≠ '"') = [] :=
      List.dropWhile_eq_nil_iff.2 (Pattern.decide_ne_of_not_mem hopen)
    rw [quotation, hdrop]

/-- The table finds the first segment of a text; what it does not know is one unexpected
character. -/
theorem first_eq_firstCut? (c : Char) (cs : List Char) :
    first c cs = (firstCut? (c :: cs)).getD ⟨.unexpected c, [c]⟩ := by
  unfold firstCut? firstRow?
  rw [rows_eq, List.findSome?_append, findSome?_marks]
  simp only [List.findSome?_cons, List.findSome?_nil, Pattern.word, Pattern.blanks, Pattern.some,
    Pattern.find?_led, Pattern.find?_numeral, Pattern.find?_quoted, Pattern.find?_unclosed,
    Pattern.find?_comment]
  unfold first
  by_cases hword : startsWord c = true
  · rw [if_pos hword, if_pos hword]
    rfl
  rw [if_neg hword, if_neg hword]
  by_cases hdigit : c.isDigit = true
  · rw [if_pos hdigit, if_pos hdigit]
    rfl
  rw [if_neg hdigit, if_neg hdigit]
  by_cases hblank : Text.isBlank c = true
  · rw [if_pos hblank, if_pos hblank]
    rfl
  rw [if_neg hblank, if_neg hblank]
  by_cases hquote : c = '"'
  · subst hquote
    rw [if_pos rfl, if_pos rfl]
    rw [quotation_eq]
    by_cases hclosed : '"' ∈ cs
    · rw [if_pos hclosed, if_pos ⟨rfl, hclosed⟩]
      rfl
    · rw [if_neg hclosed, if_neg fun h => hclosed h.2]
      rfl
  have hquoted : ¬ (c = '"' ∧ '"' ∈ cs) := fun h => hquote h.1
  rw [if_neg hquote, if_neg hquoted, if_neg hquote]
  by_cases hcomment : (c = '/' && cs.head? = some '/') = true
  · rw [if_pos hcomment, if_pos hcomment]
    rfl
  rw [if_neg hcomment, if_neg hcomment]
  unfold mark?
  cases marks.find? fun m => m.1.isPrefixOf (c :: cs) with
  | none => rfl
  | some m => rfl

end Segment

/-! ## The first match is the longest one -/

theorem prefix_takeWhile {p : Char → Bool} {u cs : List Char} (h : u <+: cs)
    (hall : ∀ c ∈ u, p c = true) : u <+: cs.takeWhile p := by
  obtain ⟨rest, rfl⟩ := h
  rw [List.takeWhile_append_of_pos hall]
  exact List.prefix_append _ _

/-- The first character of a mark belongs to no other class, and a mark is short. -/
theorem head_of_mem_marks : ∀ m ∈ marks, m.1.length ≤ 2 ∧ m.1.head?.all fun c =>
    !startsWord c && !c.isDigit && !Text.isBlank c && c ≠ '"' := by decide

/-- A mark is not the beginning of one that stands behind it. -/
theorem marks_pairwise : marks.Pairwise fun m n => ¬ m.1 <+: n.1 := by decide

namespace Segment

theorem length_le_numeral {u cs : List Char} (hu : Number.IsNumeral u) (h : u <+: cs) :
    u.length ≤ (numeral cs).length := by
  rw [numeral_eq, List.length_append]
  cases hu with
  | whole hne hdigits =>
    have := (prefix_takeWhile h hdigits).length_le
    omega
  | @fraction ds fs hne hdigits hne' hdigits' =>
    obtain ⟨rest, rfl⟩ := h
    have hsplit : ds ++ '.' :: fs ++ rest = ds ++ '.' :: (fs ++ rest) := by simp
    obtain ⟨htake, hdrop⟩ := hdigits.takeWhile_append ('.' :: (fs ++ rest)) (by simp)
    have hfs := (prefix_takeWhile (List.prefix_append fs rest) hdigits').length_le
    have hpos := List.length_pos_iff.2 hne'
    have hfraction : ¬ ((fs ++ rest).takeWhile Char.isDigit).isEmpty = true := by
      rw [List.isEmpty_iff_length_eq_zero]
      omega
    rw [hsplit, htake, hdrop, fraction_point, if_neg hfraction, List.length_append,
      List.length_cons, List.length_cons]
    omega

theorem length_le_mark? {m : List Char × Kind} (hm : m ∈ marks) {cs : List Char}
    (h : m.1 <+: cs) : ∃ s, mark? cs = some s ∧ m.1.length ≤ s.text.length := by
  have hsome : (marks.find? fun m => m.1.isPrefixOf cs).isSome = true :=
    List.find?_isSome.2 ⟨m, hm, List.isPrefixOf_iff_prefix.2 h⟩
  obtain ⟨n, hn⟩ := Option.isSome_iff_exists.1 hsome
  refine ⟨⟨.token n.2, n.1⟩, by rw [mark?, hn]; rfl, ?_⟩
  show m.1.length ≤ n.1.length
  obtain ⟨hpre, before, after, hsplit, hbefore⟩ := List.find?_eq_some_iff_append.1 hn
  rw [hsplit, List.mem_append, List.mem_cons] at hm
  rcases hm with hm | rfl | hm
  · have hnot := hbefore m hm
    rw [List.isPrefixOf_iff_prefix.2 h] at hnot
    cases hnot
  · exact Nat.le_refl _
  · by_contra hlt
    have hpairs := marks_pairwise
    rw [hsplit, List.pairwise_append, List.pairwise_cons] at hpairs
    refine hpairs.2.1.1 m hm ?_
    exact List.prefix_of_prefix_length_le (List.isPrefixOf_iff_prefix.1 hpre) h (by omega)

/-- A mark is cut as a mark, or as the comment that it opens. -/
theorem length_le_first_of_mark {m : List Char × Kind} (hm : m ∈ marks) {c : Char} {cs : List Char}
    (h : m.1 <+: c :: cs) : m.1.length ≤ (first c cs).text.length := by
  obtain ⟨hshort, hhead⟩ := head_of_mem_marks m hm
  obtain ⟨d, w, hmark⟩ := List.exists_cons_of_ne_nil (marks_ne_nil m hm)
  have hc : c = d := by
    rw [hmark] at h
    exact (List.cons_prefix_cons.1 h).1.symm
  subst hc
  simp only [hmark, List.head?_cons, Option.all_some, Bool.and_eq_true, Bool.not_eq_true',
    decide_eq_true_eq] at hhead
  obtain ⟨⟨⟨hword, hdigit⟩, hblank⟩, hquote⟩ := hhead
  rw [first, if_neg (by simp [hword]), if_neg (by simp [hdigit]), if_neg (by simp [hblank]),
    if_neg hquote]
  split
  · rename_i hcomment
    rw [Bool.and_eq_true, decide_eq_true_iff, decide_eq_true_iff] at hcomment
    obtain ⟨rest, rfl⟩ := List.head?_eq_some_iff.1 hcomment.2
    show _ ≤ (c :: ('/' :: rest).takeWhile (· ≠ '\n')).length
    rw [List.takeWhile_cons_of_pos (by decide), List.length_cons, List.length_cons]
    omega
  · obtain ⟨s, hs, hle⟩ := length_le_mark? hm h
    rw [hs]
    exact hle

/-- No row of the table matches more than the first segment. -/
theorem length_le_first {row : Row} (hrow : row ∈ rows) {c : Char} {cs u : List Char}
    (hu : row.pattern.Matches u) (h : u <+: c :: cs) :
    u.length ≤ (first c cs).text.length := by
  rcases mem_rows.1 hrow with rfl | rfl | rfl | rfl | rfl | rfl | ⟨m, hm, rfl⟩
  · obtain ⟨d, w, rfl, hd, hw⟩ := Pattern.matches_led.1 hu
    obtain ⟨rfl, hpre⟩ := List.cons_prefix_cons.1 h
    have := (prefix_takeWhile hpre hw).length_le
    rw [first, if_pos hd]
    show _ ≤ (d :: cs.takeWhile inWord).length
    rw [List.length_cons, List.length_cons]
    omega
  · have hnumeral := Pattern.matches_numeral.1 hu
    obtain ⟨d, w, rfl, hd⟩ := hnumeral.head
    obtain ⟨rfl, -⟩ := List.cons_prefix_cons.1 h
    rw [first, if_neg (by rw [Token.not_startsWord_of_isDigit hd]; decide), if_pos hd]
    exact length_le_numeral hnumeral h
  · obtain ⟨d, w, rfl, hd, hw⟩ := Pattern.matches_led.1 hu
    obtain ⟨rfl, hpre⟩ := List.cons_prefix_cons.1 h
    have := (prefix_takeWhile hpre hw).length_le
    rw [first_blank cs hd]
    show _ ≤ (d :: cs.takeWhile Text.isBlank).length
    rw [List.length_cons, List.length_cons]
    omega
  · obtain ⟨body, rfl, hbody⟩ := Pattern.matches_quoted.1 hu
    obtain ⟨rfl, rest, rfl⟩ := List.cons_prefix_cons.1 h
    show _ ≤ (quotation (body ++ ['"'] ++ rest)).text.length
    rw [List.append_assoc, List.singleton_append, Token.quotation_append hbody]
  · obtain ⟨body, rfl, hbody⟩ := Pattern.matches_unclosed.1 hu
    obtain ⟨rfl, hpre⟩ := List.cons_prefix_cons.1 h
    have := (prefix_takeWhile hpre (Pattern.decide_ne_of_not_mem hbody)).length_le
    show _ ≤ (quotation cs).text.length
    rw [quotation_eq]
    split
    · rw [List.length_cons, List.length_cons, List.length_append]
      omega
    · rw [List.length_cons, List.length_cons]
      omega
  · obtain ⟨body, rfl, hbody⟩ := Pattern.matches_comment.1 hu
    obtain ⟨rfl, hpre⟩ := List.cons_prefix_cons.1 h
    obtain ⟨rest, rfl⟩ := hpre
    have hall : ∀ c ∈ '/' :: body, decide (c ≠ '\n') = true :=
      Pattern.decide_ne_of_not_mem fun h => (List.mem_cons.1 h).elim (by decide) hbody
    have := (prefix_takeWhile (List.prefix_append ('/' :: body) rest) hall).length_le
    rw [List.length_cons] at this
    show _ ≤ ('/' :: ('/' :: body ++ rest).takeWhile (· ≠ '\n')).length
    rw [List.length_cons, List.length_cons, List.length_cons]
    omega
  · rw [Pattern.matches_text.1 hu] at h ⊢
    exact length_le_first_of_mark hm h

/-! ## The row behind a segment -/

/-- What a row makes of a match is as long as the match. -/
theorem text_segment {row : Row} (hrow : row ∈ rows) {u : List Char}
    (hu : row.pattern.Matches u) : (row.handling.segment u).text = u := by
  rcases mem_rows.1 hrow with rfl | rfl | rfl | rfl | rfl | rfl | ⟨m, hm, rfl⟩
  · rfl
  · rfl
  · rfl
  · rfl
  · rfl
  · rfl
  · exact (Pattern.matches_text.1 hu).symm

/-- The first segment is an unexpected character that no row matches, or what a row makes of its
text. -/
theorem first_cases (c : Char) (cs : List Char) :
    (first c cs = ⟨.unexpected c, [c]⟩ ∧
        ∀ row ∈ rows, ∀ u, u <+: c :: cs → ¬ row.pattern.Matches u) ∨
      ∃ row ∈ rows, row.pattern.Matches (first c cs).text ∧
        row.handling.segment (first c cs).text = first c cs := by
  cases hcut : firstRow? (c :: cs) with
  | none =>
    left
    constructor
    · rw [first_eq_firstCut?, firstCut?, hcut]
      rfl
    · intro row hrow
      have hnone := List.findSome?_eq_none_iff.1 hcut row hrow
      exact Pattern.find?_eq_none.1 (Option.map_eq_none_iff.1 hnone)
  | some found =>
    right
    have hfirst : first c cs = found.1.handling.segment found.2 := by
      rw [first_eq_firstCut?, firstCut?, hcut]
      rfl
    obtain ⟨row, hrow, hfound⟩ := List.exists_of_findSome?_eq_some hcut
    obtain ⟨u, hu, rfl⟩ := Option.map_eq_some_iff.1 hfound
    obtain ⟨-, hm⟩ := Pattern.find?_eq_some hu
    have htext : (first c cs).text = u := by rw [hfirst, text_segment hrow hm]
    rw [htext]
    exact ⟨row, hrow, hm, hfirst.symm⟩

/-- A match, standing alone, is cut as the row says.  So rows that match the same text make the same
segment of it. -/
theorem first_of_matches {row : Row} (hrow : row ∈ rows) {c : Char} {w : List Char}
    (hu : row.pattern.Matches (c :: w)) : first c w = row.handling.segment (c :: w) := by
  rcases mem_rows.1 hrow with rfl | rfl | rfl | rfl | rfl | rfl | ⟨m, hm, rfl⟩
  · obtain ⟨d, v, he, hd, hv⟩ := Pattern.matches_led.1 hu
    obtain ⟨rfl, rfl⟩ := List.cons.inj he
    rw [first, if_pos hd, List.takeWhile_eq_self_iff.2 hv]
    rfl
  · have hnumeral := Pattern.matches_numeral.1 hu
    obtain ⟨d, v, he, hd⟩ := hnumeral.head
    obtain ⟨rfl, rfl⟩ := List.cons.inj he
    have halone := @Token.numeral_append _ [] hnumeral (by simp)
    rw [List.append_nil] at halone
    rw [first, if_neg (by rw [Token.not_startsWord_of_isDigit hd]; decide), if_pos hd, halone]
    rfl
  · obtain ⟨d, v, he, hd, hv⟩ := Pattern.matches_led.1 hu
    obtain ⟨rfl, rfl⟩ := List.cons.inj he
    rw [first_blank _ hd, List.takeWhile_eq_self_iff.2 hv]
    rfl
  · obtain ⟨body, he, hbody⟩ := Pattern.matches_quoted.1 hu
    obtain ⟨rfl, rfl⟩ := List.cons.inj he
    exact Token.quotation_append hbody []
  · obtain ⟨body, he, hbody⟩ := Pattern.matches_unclosed.1 hu
    obtain ⟨rfl, rfl⟩ := List.cons.inj he
    show quotation w = _
    rw [quotation_eq, if_neg hbody,
      List.takeWhile_eq_self_iff.2 (Pattern.decide_ne_of_not_mem hbody)]
    rfl
  · obtain ⟨body, he, hbody⟩ := Pattern.matches_comment.1 hu
    obtain ⟨rfl, rfl⟩ := List.cons.inj he
    have hall : ∀ d ∈ '/' :: body, decide (d ≠ '\n') = true :=
      Pattern.decide_ne_of_not_mem fun h => (List.mem_cons.1 h).elim (by decide) hbody
    show (⟨.comment, '/' :: ('/' :: body).takeWhile (· ≠ '\n')⟩ : Segment) = _
    rw [List.takeWhile_eq_self_iff.2 hall]
    rfl
  · obtain ⟨d, v, hmark, hfirst⟩ := @Token.first_mark _ hm [] (by simp)
    have he := Pattern.matches_text.1 hu
    rw [hmark] at he
    obtain ⟨rfl, rfl⟩ := List.cons.inj he
    rw [List.append_nil] at hfirst
    rw [hfirst, ← hmark]
    rfl

/-- A match that no row exceeds is the first segment. -/
theorem first_of_longest {row : Row} (hrow : row ∈ rows) {c : Char} {cs u : List Char}
    (hu : row.pattern.Matches u) (hpre : u <+: c :: cs)
    (hlongest : ∀ other ∈ rows, ∀ v, other.pattern.Matches v → v <+: c :: cs →
      v.length ≤ u.length) :
    first c cs = row.handling.segment u := by
  rcases first_cases c cs with ⟨-, hnone⟩ | ⟨other, hother, hm, hsegment⟩
  · exact absurd hu (hnone row hrow u hpre)
  have hle := length_le_first hrow hu hpre
  have hstart := Segment.first_prefix c cs
  have hge := hlongest other hother _ hm hstart
  have htext : u = (first c cs).text :=
    (List.prefix_of_prefix_length_le hpre hstart hle).eq_of_length (by omega)
  obtain ⟨d, w, hcons⟩ := List.exists_cons_of_ne_nil (first_ne_nil c cs)
  rw [htext]
  rw [hcons] at hm hsegment ⊢
  calc first c cs = other.handling.segment (d :: w) := hsegment.symm
    _ = first d w := (first_of_matches hother hm).symm
    _ = row.handling.segment (d :: w) := first_of_matches hrow (by rw [← hcons, ← htext]; exact hu)

end Segment

end LoxLang
