import LoxLang.Proofs.Syntax.Ahead
import LoxLang.Proofs.Token.Genuine

/-!
Two texts with a newline between them.

If the first text leaves no string open, its segments are cut as before: a newline ends every segment
but a run of blanks, and blanks are neither tokens nor faults.  So the tokens and the faults of both
texts together are those of the first one and, that many lines further down, those of the second one
(`tokens_joined`, `errorsIn_joined`, and both together `newline_separates`).
-/

namespace LoxLang

/-! ## Segments that are not blank -/

theorem segmentsUpTo_eq {bound bound' : Nat} {cs : List Char} (h : cs.length ≤ bound)
    (h' : cs.length ≤ bound') : segmentsUpTo bound cs = segmentsUpTo bound' cs := by
  induction bound generalizing bound' cs with
  | zero =>
    rw [List.length_eq_zero_iff.1 (Nat.le_zero.1 h)]
    cases bound' <;> rfl
  | succ bound ih =>
    cases cs with
    | nil => cases bound' <;> rfl
    | cons c cs =>
      cases bound' with
      | zero => cases h'
      | succ bound' =>
        have hlen := length_drop_first c cs
        rw [List.length_cons] at h h'
        rw [segmentsUpTo, segmentsUpTo]
        exact congrArg _ (ih (by omega) (by omega))

theorem segments_cons (c : Char) (cs : List Char) :
    segments (c :: cs) =
      Segment.first c cs :: segments ((c :: cs).drop (Segment.first c cs).text.length) :=
  congrArg _ (segmentsUpTo_eq (length_drop_first c cs) (Nat.le_refl _))

/-- The segments that are not blank, with the lines on which they end. -/
def solids (line : Nat) (cs : List Char) : List (Segment × Nat) :=
  (withLines line (segments cs)).filter fun s => s.1.piece ≠ .blank

theorem solids_cons (line : Nat) (c : Char) (cs : List Char) :
    solids line (c :: cs) =
      let s := Segment.first c cs
      let after := line + Text.newlines s.text
      let rest := solids after ((c :: cs).drop s.text.length)
      if s.piece = .blank then rest else (s, after) :: rest := by
  rw [solids, segments_cons, withLines]
  dsimp only
  by_cases hblank : (Segment.first c cs).piece = .blank
  · rw [if_pos hblank, List.filter_cons_of_neg (by simp [hblank])]
    rfl
  · rw [if_neg hblank, List.filter_cons_of_pos (by simp [hblank])]
    rfl

/-- Blanks are passed over. -/
theorem solids_dropWhile (line : Nat) (cs : List Char) :
    solids line cs =
      solids (line + Text.newlines (cs.takeWhile Text.isBlank)) (cs.dropWhile Text.isBlank) := by
  cases cs with
  | nil => rfl
  | cons c cs =>
    by_cases hblank : Text.isBlank c = true
    · have hdrop : (c :: cs).drop (c :: cs.takeWhile Text.isBlank).length =
          cs.dropWhile Text.isBlank := by
        rw [List.length_cons, List.drop_succ_cons, drop_length_takeWhile]
      rw [solids_cons, first_blank cs hblank, List.takeWhile_cons_of_pos hblank,
        List.dropWhile_cons_of_pos hblank]
      dsimp only
      rw [if_pos rfl, hdrop]
    · rw [List.takeWhile_cons_of_neg hblank, List.dropWhile_cons_of_neg hblank]
      rfl

/-! ## A newline behind a text -/

theorem takeWhile_newline {p : Char → Bool} (hp : p '\n' = false) (cs rest : List Char) :
    (cs ++ '\n' :: rest).takeWhile p = cs.takeWhile p := by
  induction cs with
  | nil => exact List.takeWhile_cons_of_neg (by simp [hp])
  | cons c cs ih =>
    rw [List.cons_append, List.takeWhile_cons, List.takeWhile_cons, ih]

theorem dropWhile_newline {p : Char → Bool} (hp : p '\n' = false) (cs rest : List Char) :
    (cs ++ '\n' :: rest).dropWhile p = cs.dropWhile p ++ '\n' :: rest := by
  induction cs with
  | nil => exact List.dropWhile_cons_of_neg (by simp [hp])
  | cons c cs ih =>
    rw [List.cons_append, List.dropWhile_cons, List.dropWhile_cons, ih]
    split
    · rfl
    · rfl

theorem isPrefixOf_newline {mark : List Char} (h : '\n' ∉ mark) (cs rest : List Char) :
    mark.isPrefixOf (cs ++ '\n' :: rest) = mark.isPrefixOf cs := by
  induction mark generalizing cs with
  | nil => cases cs <;> rfl
  | cons m mark ih =>
    obtain ⟨hm, hmark⟩ := List.ne_and_not_mem_of_not_mem_cons h
    cases cs with
    | nil => simp [List.isPrefixOf, Ne.symm hm]
    | cons c cs => simp only [List.cons_append, List.isPrefixOf, ih hmark]

namespace Segment

theorem numeral_newline (cs rest : List Char) : numeral (cs ++ '\n' :: rest) = numeral cs := by
  have hdigit : Char.isDigit '\n' = false := rfl
  unfold numeral
  rw [takeWhile_newline hdigit, dropWhile_newline hdigit]
  cases cs.dropWhile Char.isDigit with
  | nil => rfl
  | cons d ds =>
    by_cases hpoint : d = '.'
    · subst hpoint
      simp only [List.cons_append, takeWhile_newline hdigit]
    · simp [hpoint]

theorem mark?_newline (cs rest : List Char) : mark? (cs ++ '\n' :: rest) = mark? cs := by
  have hmarks : ∀ m ∈ marks, '\n' ∉ m.1 := by decide
  have hfind : ∀ ms : List (List Char × Kind), (∀ m ∈ ms, '\n' ∉ m.1) →
      ms.find? (fun m => m.1.isPrefixOf (cs ++ '\n' :: rest)) =
        ms.find? (fun m => m.1.isPrefixOf cs) := by
    intro ms hms
    induction ms with
    | nil => rfl
    | cons m ms ih =>
      rw [List.find?_cons, List.find?_cons, isPrefixOf_newline (hms m List.mem_cons_self),
        ih fun m hm => hms m (List.mem_cons_of_mem _ hm)]
  rw [mark?, mark?, hfind marks hmarks]

theorem quotation_newline {cs : List Char} (h : (quotation cs).piece ≠ .unterminated)
    (rest : List Char) : quotation (cs ++ '\n' :: rest) = quotation cs := by
  have hclosed : '"' ∈ cs := by
    by_cases hmem : '"' ∈ cs
    · exact hmem
    · have hdrop : cs.dropWhile (fun c => decide (c ≠ '"')) = [] :=
        List.dropWhile_eq_nil_iff.2 fun c hc => decide_eq_true fun he => hmem (he ▸ hc)
      unfold quotation at h
      rw [hdrop] at h
      exact absurd rfl h
  obtain ⟨body, after, rfl, hbody⟩ := List.eq_append_cons_of_mem hclosed
  rw [List.append_assoc, List.cons_append, Token.quotation_append hbody,
    Token.quotation_append hbody]

/-- Where no string is left open and no blanks are, a newline further on changes nothing. -/
theorem first_newline {c : Char} {cs : List Char} (hblank : (first c cs).piece ≠ .blank)
    (hopen : (first c cs).piece ≠ .unterminated) (rest : List Char) :
    first c (cs ++ '\n' :: rest) = first c cs := by
  have hhead : ((cs ++ '\n' :: rest).head? = some '/') = (cs.head? = some '/') := by
    cases cs with
    | nil => simp
    | cons d ds => rfl
  by_cases hword : startsWord c = true
  · rw [first, first, if_pos hword, if_pos hword, takeWhile_newline rfl]
  by_cases hdigit : c.isDigit = true
  · rw [first, first, if_neg hword, if_neg hword, if_pos hdigit, if_pos hdigit,
      ← List.cons_append, numeral_newline]
  by_cases hb : Text.isBlank c = true
  · rw [first_blank cs hb] at hblank
    exact absurd rfl hblank
  by_cases hquote : c = '"'
  · rw [first, if_neg hword, if_neg hdigit, if_neg hb, if_pos hquote] at hopen
    rw [first, first, if_neg hword, if_neg hword, if_neg hdigit, if_neg hdigit, if_neg hb,
      if_neg hb, if_pos hquote, if_pos hquote, quotation_newline hopen]
  · rw [first, first, if_neg hword, if_neg hword, if_neg hdigit, if_neg hdigit, if_neg hb,
      if_neg hb, if_neg hquote, if_neg hquote, ← List.cons_append, mark?_newline,
      takeWhile_newline (by decide)]
    simp only [hhead]

end Segment

/-! ## Both texts -/

theorem solids_blank {c : Char} (h : Text.isBlank c = true) (line : Nat) (cs : List Char) :
    solids line (c :: cs) = solids (line + Text.newlines [c]) cs := by
  have hn : Text.newlines (c :: cs.takeWhile Text.isBlank) =
      Text.newlines [c] + Text.newlines (cs.takeWhile Text.isBlank) := Text.newlines_append [c] _
  rw [solids_dropWhile, solids_dropWhile (line + Text.newlines [c]) cs,
    List.takeWhile_cons_of_pos h, List.dropWhile_cons_of_pos h, hn, Nat.add_assoc]

theorem piece_ne_blank {c : Char} (h : ¬ Text.isBlank c = true) (cs : List Char) :
    (Segment.first c cs).piece ≠ .blank := by
  unfold Segment.first
  rw [if_neg h]
  split
  · exact Piece.noConfusion
  split
  · exact Piece.noConfusion
  split
  · unfold Segment.quotation
    split
    · exact Piece.noConfusion
    · exact Piece.noConfusion
  split
  · exact Piece.noConfusion
  · unfold Segment.mark?
    cases marks.find? fun m => m.1.isPrefixOf (c :: cs) with
    | none => exact Piece.noConfusion
    | some m => exact Piece.noConfusion

/-- The segments of a text, and behind a newline those of another one. -/
theorem solids_append {line : Nat} {cs : List Char}
    (h : ∀ s ∈ solids line cs, s.1.piece ≠ .unterminated) (rest : List Char) :
    solids line (cs ++ '\n' :: rest) =
      solids line cs ++ solids (line + Text.newlines cs + 1) rest := by
  generalize hlen : cs.length = n
  induction n using Nat.strongRecOn generalizing line cs with
  | ind n ih =>
    cases cs with
    | nil => exact solids_blank (by decide) line rest
    | cons c cs =>
      by_cases hblank : Text.isBlank c = true
      · have hn : Text.newlines (c :: cs) = Text.newlines [c] + Text.newlines cs :=
          Text.newlines_append [c] cs
        rw [solids_blank hblank] at h
        rw [List.cons_append, solids_blank hblank, solids_blank hblank, hn, ← Nat.add_assoc]
        exact ih cs.length (hlen ▸ Nat.lt_succ_self _) h rfl
      · have hpiece := piece_ne_blank hblank cs
        have hprefix := Segment.first_prefix c cs
        have hshort := length_drop_first c cs
        rw [solids_cons, if_neg hpiece] at h
        have hopen := h _ List.mem_cons_self
        have hdrop : (c :: (cs ++ '\n' :: rest)).drop (Segment.first c cs).text.length =
            (c :: cs).drop (Segment.first c cs).text.length ++ '\n' :: rest :=
          List.drop_append_of_le_length hprefix.length_le
        have hn : Text.newlines (c :: cs) = Text.newlines (Segment.first c cs).text +
            Text.newlines ((c :: cs).drop (Segment.first c cs).text.length) := by
          obtain ⟨after, hafter⟩ := hprefix
          rw [← hafter, List.drop_left, Text.newlines_append]
        rw [List.cons_append, solids_cons, solids_cons, Segment.first_newline hpiece hopen]
        dsimp only
        rw [if_neg hpiece, if_neg hpiece, hdrop, hn, List.cons_append, ← Nat.add_assoc]
        exact congrArg _ (ih _ (by rw [← hlen]; exact Nat.lt_succ_of_le hshort)
          (fun s hs => h s (List.mem_cons_of_mem _ hs)) rfl)

/-! ## Lower lines -/

/-- The token so many lines further down. -/
def Token.lower (d : Nat) (t : Token) : Token := { t with line := t.line + d }

/-- The fault so many lines further down. -/
def LexicalError.lower (d : Nat) (e : LexicalError) : LexicalError := { e with line := e.line + d }

theorem solids_lower (d line : Nat) (cs : List Char) :
    solids (line + d) cs = (solids line cs).map fun s => (s.1, s.2 + d) := by
  have hlines : ∀ (ss : List Segment) (line : Nat),
      withLines (line + d) ss = (withLines line ss).map fun s => (s.1, s.2 + d) := by
    intro ss
    induction ss with
    | nil => exact fun _ => rfl
    | cons s ss ih =>
      intro line
      rw [withLines, withLines, List.map_cons, ← ih, Nat.add_right_comm]
  rw [solids, solids, hlines, List.filter_map]
  rfl

namespace Segment

theorem token?_lower (s : Segment) (line d : Nat) :
    s.token? (line + d) = (s.token? line).map (Token.lower d) := by
  obtain ⟨piece, text⟩ := s
  cases piece <;> rfl

theorem error?_lower (s : Segment) (line d : Nat) :
    s.error? (line + d) = (s.error? line).map (LexicalError.lower d) := by
  obtain ⟨piece, text⟩ := s
  cases piece <;> rfl

end Segment

namespace Token

/-- Blank segments are neither tokens nor faults. -/
theorem filterMap_solids {α : Type} {f : Segment × Nat → Option α}
    (hf : ∀ s, s.1.piece = .blank → f s = none) (line : Nat) (cs : List Char) :
    (withLines line (segments cs)).filterMap f = (solids line cs).filterMap f := by
  rw [solids, List.filterMap_filter]
  refine congrArg (List.filterMap · _) (funext fun s => ?_)
  by_cases hblank : s.1.piece = .blank
  · rw [hf s hblank, if_neg (by simp [hblank])]
  · rw [if_pos (by simp [hblank])]

theorem token?_blank (s : Segment × Nat) (h : s.1.piece = .blank) : s.1.token? s.2 = none := by
  rw [Segment.token?, h]

theorem error?_blank (s : Segment × Nat) (h : s.1.piece = .blank) : s.1.error? s.2 = none := by
  rw [Segment.error?, h]

/-- The tokens of a text but for the closing one. -/
theorem dropLast_ofText (text : String) :
    (ofText text).dropLast = (solids 1 text.toList).filterMap fun s => s.1.token? s.2 := by
  rw [← filterMap_solids token?_blank]
  exact List.dropLast_concat

theorem errorsIn_eq_solids (text : String) :
    errorsIn text = (solids 1 text.toList).filterMap fun s => s.1.error? s.2 :=
  filterMap_solids error?_blank _ _

theorem ofText_eq_concat (text : String) :
    ofText text = (ofText text).dropLast ++ [eofAt (1 + Text.newlines text.toList)] := by
  rw [ofText, List.dropLast_concat]

/-- The closing token is the only one of its kind. -/
theorem beforeEof_ofText (text : String) : beforeEof (ofText text) = (ofText text).dropLast := by
  have hgenuine : ∀ t ∈ (ofText text).dropLast, decide (t.kind ≠ .eof) = true :=
    fun t ht => decide_eq_true (genuine_of_mem_dropLast ht).kind_ne_eof
  conv => lhs; rw [ofText_eq_concat]
  exact (takeWhile_append_stop hgenuine fun t ht => by cases ht; rfl).1

/-- A string that is left open is a fault. -/
theorem closed_of_errorsIn {text : String} (h : ∀ e ∈ errorsIn text, e.cause ≠ .unterminatedString) :
    ∀ s ∈ solids 1 text.toList, s.1.piece ≠ .unterminated := by
  intro s hs hopen
  have herror : s.1.error? s.2 = some ⟨s.2, .unterminatedString⟩ := by rw [Segment.error?, hopen]
  refine h ⟨s.2, .unterminatedString⟩ ?_ rfl
  rw [errorsIn_eq_solids]
  exact List.mem_filterMap.2 ⟨s, hs, herror⟩

theorem closed_of_faultless {text : String} (h : errorsIn text = []) :
    ∀ e ∈ errorsIn text, e.cause ≠ .unterminatedString := by
  rw [h]
  exact fun _ he => nomatch he

section

variable {first second : String} (h : ∀ e ∈ errorsIn first, e.cause ≠ .unterminatedString)

include h

theorem solids_joined :
    solids 1 (first ++ "\n" ++ second).toList = solids 1 first.toList ++
      (solids 1 second.toList).map fun s => (s.1, s.2 + (1 + Text.newlines first.toList)) := by
  have htext : (first ++ "\n" ++ second).toList = first.toList ++ '\n' :: second.toList := by
    rw [String.toList_append, String.toList_append, List.append_assoc]
    rfl
  rw [htext, solids_append (closed_of_errorsIn h), ← solids_lower]
  congr 2
  omega

/-- The faults of both texts, those of the second one further down. -/
theorem errorsIn_joined :
    errorsIn (first ++ "\n" ++ second) = errorsIn first ++
      (errorsIn second).map (LexicalError.lower (1 + Text.newlines first.toList)) := by
  rw [errorsIn_eq_solids, errorsIn_eq_solids, errorsIn_eq_solids, solids_joined h,
    List.filterMap_append, List.filterMap_map, List.map_filterMap]
  refine congrArg _ (congrArg (List.filterMap · _) (funext fun s => ?_))
  exact s.1.error?_lower s.2 _

/-- The tokens of both texts, those of the second one further down; only that one is closed. -/
theorem tokens_joined :
    ofText (first ++ "\n" ++ second) = (ofText first).dropLast ++
      (ofText second).map (lower (1 + Text.newlines first.toList)) := by
  have hclosing : (eofAt (1 + Text.newlines second.toList)).lower (1 + Text.newlines first.toList) =
      eofAt (1 + Text.newlines (first ++ "\n" ++ second).toList) := by
    have hn : Text.newlines "\n".toList = 1 := by decide
    have hline : 1 + Text.newlines second.toList + (1 + Text.newlines first.toList) =
        1 + Text.newlines (first ++ "\n" ++ second).toList := by
      rw [String.toList_append, String.toList_append, Text.newlines_append, Text.newlines_append, hn]
      omega
    exact congrArg (Token.mk .eof "" none) hline
  have htokens : (ofText (first ++ "\n" ++ second)).dropLast = (ofText first).dropLast ++
      ((ofText second).dropLast).map (lower (1 + Text.newlines first.toList)) := by
    rw [dropLast_ofText, dropLast_ofText, dropLast_ofText, solids_joined h, List.filterMap_append,
      List.filterMap_map, List.map_filterMap]
    refine congrArg _ (congrArg (List.filterMap · _) (funext fun s => ?_))
    exact s.1.token?_lower s.2 _
  rw [ofText_eq_concat, htokens, ← hclosing, List.append_assoc]
  conv => rhs; rw [ofText_eq_concat second, List.map_append]
  rfl

/-- The tokens before the end of both texts. -/
theorem beforeEof_joined :
    beforeEof (ofText (first ++ "\n" ++ second)) = beforeEof (ofText first) ++
      beforeEof ((ofText second).map (lower (1 + Text.newlines first.toList))) := by
  have hlower : beforeEof ((ofText second).map (lower (1 + Text.newlines first.toList))) =
      (beforeEof (ofText second)).map (lower (1 + Text.newlines first.toList)) :=
    List.takeWhile_map
  rw [hlower, beforeEof_ofText, beforeEof_ofText, beforeEof_ofText, tokens_joined h,
    List.dropLast_append_of_ne_nil (by rw [ofText]; simp), List.map_dropLast]

end

/-- For every text that leaves no string open, whatever else is wrong with it, and every text on the
lines behind it: the tokens of both are those of the first one but for the closing one, and those of
the second one that many lines further down; the faults of both likewise. -/
theorem newline_separates (first second : String)
    (h : ∀ e ∈ errorsIn first, e.cause ≠ .unterminatedString) :
    let d := 1 + Text.newlines first.toList
    ofText (first ++ "\n" ++ second) = (ofText first).dropLast ++ (ofText second).map (lower d) ∧
      errorsIn (first ++ "\n" ++ second) =
        errorsIn first ++ (errorsIn second).map (LexicalError.lower d) :=
  ⟨tokens_joined h, errorsIn_joined h⟩

/-- A string over two lines, a fault and a comment, and on the third line a fault and an open string. -/
theorem newline_separates_faulty :
    let first := "@ \"a\nb\" // c"
    let second := "# d \""
    (∀ e ∈ errorsIn first, e.cause ≠ .unterminatedString) ∧
      errorsIn first = [⟨1, .unexpectedCharacter '@'⟩] ∧
      errorsIn (first ++ "\n" ++ second) = [⟨1, .unexpectedCharacter '@'⟩,
        ⟨3, .unexpectedCharacter '#'⟩, ⟨3, .unterminatedString⟩] ∧
      ofText (first ++ "\n" ++ second) = (ofText first).dropLast ++ (ofText second).map (lower 2) := by
  intro first second
  have hfirst : errorsIn first = [⟨1, .unexpectedCharacter '@'⟩] := by decide +kernel
  have hsecond : errorsIn second = [⟨1, .unexpectedCharacter '#'⟩, ⟨1, .unterminatedString⟩] := by
    decide +kernel
  have hlines : 1 + Text.newlines first.toList = 2 := by decide +kernel
  have hclosed : ∀ e ∈ errorsIn first, e.cause ≠ .unterminatedString := by
    rw [hfirst]
    decide
  obtain ⟨htokens, herrors⟩ := newline_separates first second hclosed
  rw [hlines] at htokens
  rw [hfirst, hsecond, hlines] at herrors
  exact ⟨hclosed, hfirst, herrors, htokens⟩

end Token

end LoxLang
