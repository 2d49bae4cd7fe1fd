import LoxLang.Proofs.Token.Joining
import LoxLang.Proofs.Token.Munch

/-!
How a text is cut, said without saying how the cuts are found.

`Cut before rest ss ts es` says that the text `rest`, behind `before`, consists of the segments `ss`, of
which the tokens `ts` and the faults `es` are made.  A token is a match that no row of the table
exceeds; blanks and comments go as far as they can; a character that no row matches and a quote
without a partner are reported once each.  Every line is one more than the newlines up to the end of
the segment.  A text is cut in one way only, and that is how it is read (`Cut.unique`,
`cut_segments`).
-/

namespace LoxLang

open Text (newlines)

inductive Cut : List Char → List Char → List Segment → List Token → List LexicalError → Prop
  | done {before} : Cut before [] [] [.eofAt (1 + newlines before)] []
  | token {before u rest ss ts es row kind} : row ∈ rows → row.pattern.Matches u →
      (row.handling.segment u).piece = .token kind → u ≠ [] →
      (∀ other ∈ rows, ∀ v, other.pattern.Matches v → v <+: u ++ rest → v.length ≤ u.length) →
      Cut (before ++ u) rest ss ts es →
      Cut before (u ++ rest) (⟨.token kind, u⟩ :: ss)
        (⟨kind, String.ofList u, Segment.literal? kind u, 1 + newlines (before ++ u)⟩ :: ts) es
  /-- A run of blanks that no blank follows. -/
  | blank {before u rest ss ts es} : u ≠ [] → (∀ c ∈ u, Text.isBlank c = true) →
      (∀ c ∈ rest.head?, Text.isBlank c = false) → Cut (before ++ u) rest ss ts es →
      Cut before (u ++ rest) (⟨.blank, u⟩ :: ss) ts es
  /-- Up to the next newline, which stays ahead. -/
  | comment {before body rest ss ts es} : '\n' ∉ body → (∀ c ∈ rest.head?, c = '\n') →
      Cut (before ++ '/' :: '/' :: body) rest ss ts es →
      Cut before ('/' :: '/' :: body ++ rest) (⟨.comment, '/' :: '/' :: body⟩ :: ss) ts es
  | unexpected {before c rest ss ts es} :
      (∀ row ∈ rows, ∀ u, u <+: c :: rest → ¬ row.pattern.Matches u) →
      Cut (before ++ [c]) rest ss ts es →
      Cut before (c :: rest) (⟨.unexpected c, [c]⟩ :: ss) ts
        (⟨1 + newlines (before ++ [c]), .unexpectedCharacter c⟩ :: es)
  /-- A quote without a partner takes all that is left. -/
  | unterminated {before body ss ts es} : '"' ∉ body → Cut (before ++ '"' :: body) [] ss ts es →
      Cut before ('"' :: body) (⟨.unterminated, '"' :: body⟩ :: ss) ts
        (⟨1 + newlines (before ++ '"' :: body), .unterminatedString⟩ :: es)

/-! ## What is ahead -/

/-- The segments of what is ahead, with the lines on which they end. -/
def located (before rest : List Char) : List (Segment × Nat) :=
  withLines (1 + newlines before) (segments rest)

def tokensFrom (before rest : List Char) : List Token :=
  (located before rest).filterMap (fun s => s.1.token? s.2) ++
    [.eofAt (1 + newlines (before ++ rest))]

def errorsFrom (before rest : List Char) : List LexicalError :=
  (located before rest).filterMap fun s => s.1.error? s.2

theorem filterMap_cons_toList {α β : Type} (f : α → Option β) (a : α) (as : List α) :
    (a :: as).filterMap f = (f a).toList ++ as.filterMap f := by
  rw [List.filterMap_cons]
  cases f a with
  | none => rfl
  | some b => rfl

theorem text_ne_nil_of_mem {s : Segment} (bound : Nat) (cs : List Char)
    (h : s ∈ segmentsUpTo bound cs) : s.text ≠ [] := by
  induction bound generalizing cs with
  | zero => cases cs <;> cases h
  | succ bound ih =>
    cases cs with
    | nil => cases h
    | cons c cs =>
      rcases List.mem_cons.1 h with rfl | h
      · exact Segment.first_ne_nil c cs
      · exact ih _ h

/-- The first segment comes off, with its token or its fault. -/
theorem cut_off {before rest : List Char} {s : Segment} {c : Char} {cs : List Char}
    (hcons : s.text ++ rest = c :: cs) (hfirst : Segment.first c cs = s) :
    s :: segments rest = segments (c :: cs) ∧
      (s.token? (1 + newlines (before ++ s.text))).toList ++ tokensFrom (before ++ s.text) rest =
        tokensFrom before (c :: cs) ∧
      (s.error? (1 + newlines (before ++ s.text))).toList ++ errorsFrom (before ++ s.text) rest =
        errorsFrom before (c :: cs) := by
  have hsegments : segments (c :: cs) = s :: segments rest := by
    rw [segments_cons, hfirst, ← hcons, List.drop_left]
  have hlocated : located before (c :: cs) =
      (s, 1 + newlines (before ++ s.text)) :: located (before ++ s.text) rest := by
    unfold located
    rw [hsegments, withLines, Text.newlines_append, Nat.add_assoc]
  refine ⟨hsegments.symm, ?_, ?_⟩
  · unfold tokensFrom
    rw [hlocated, filterMap_cons_toList, ← hcons, List.append_assoc, List.append_assoc]
  · unfold errorsFrom
    rw [hlocated, filterMap_cons_toList]

/-! ## The segments are found -/

/-- A longest match is cut off as its row says. -/
theorem Cut.of_row {row : Row} (hrow : row ∈ rows) {before u rest ss ts es}
    (hm : row.pattern.Matches u) (hne : u ≠ [])
    (hlongest : ∀ other ∈ rows, ∀ v, other.pattern.Matches v → v <+: u ++ rest →
      v.length ≤ u.length)
    (hrest : Cut (before ++ u) rest ss ts es) :
    Cut before (u ++ rest) (row.handling.segment u :: ss)
      (((row.handling.segment u).token? (1 + newlines (before ++ u))).toList ++ ts)
      (((row.handling.segment u).error? (1 + newlines (before ++ u))).toList ++ es) := by
  -- What stands behind a match does not prolong it.
  have hnext : ∀ other ∈ rows, ∀ c ∈ rest.head?, ¬ other.pattern.Matches (u ++ [c]) := by
    intro other hother c hc hlong
    obtain ⟨cs, rfl⟩ := List.head?_eq_some_iff.1 hc
    have hle := hlongest other hother _ hlong ⟨cs, by simp⟩
    rw [List.length_append, List.length_singleton] at hle
    omega
  rcases mem_rows.1 hrow with rfl | rfl | rfl | rfl | rfl | rfl | ⟨m, hmark, rfl⟩
  · exact .token hrow hm rfl hne hlongest hrest
  · exact .token hrow hm rfl hne hlongest hrest
  · obtain ⟨-, hall⟩ := Pattern.matches_some.1 hm
    refine .blank hne hall (fun c hc => ?_) hrest
    rw [← Bool.not_eq_true]
    intro hblank
    refine hnext _ hrow c hc (Pattern.matches_some.2 ⟨by simp, fun d hd => ?_⟩)
    rcases List.mem_append.1 hd with hd | hd
    · exact hall d hd
    · rw [List.mem_singleton.1 hd]
      exact hblank
  · exact .token hrow hm rfl hne hlongest hrest
  · obtain ⟨body, rfl, hbody⟩ := Pattern.matches_unclosed.1 hm
    cases rest with
    | nil =>
      rw [List.append_nil]
      exact .unterminated hbody hrest
    | cons c cs =>
      exfalso
      by_cases hc : c = '"'
      · subst hc
        refine hnext ⟨.quoted, .string⟩ (mem_rows.2 (by simp)) _ rfl ?_
        exact Pattern.matches_quoted.2 ⟨body, rfl, hbody⟩
      · refine hnext _ hrow c rfl (Pattern.matches_unclosed.2 ⟨body ++ [c], rfl, fun h => ?_⟩)
        rcases List.mem_append.1 h with h | h
        · exact hbody h
        · exact hc (List.mem_singleton.1 h).symm
  · obtain ⟨body, rfl, hbody⟩ := Pattern.matches_comment.1 hm
    refine .comment hbody (fun c hc => ?_) hrest
    by_contra hne
    refine hnext _ hrow c hc (Pattern.matches_comment.2 ⟨body ++ [c], rfl, fun h => ?_⟩)
    rcases List.mem_append.1 h with h | h
    · exact hbody h
    · exact hne (List.mem_singleton.1 h).symm
  · obtain rfl := Pattern.matches_text.1 hm
    exact .token hrow hm rfl hne hlongest hrest

theorem cut_segments (before rest : List Char) :
    Cut before rest (segments rest) (tokensFrom before rest) (errorsFrom before rest) := by
  induction hlen : rest.length using Nat.strong_induction_on generalizing before rest with
  | _ n ih =>
    cases rest with
    | nil =>
      unfold tokensFrom
      rw [List.append_nil]
      exact .done
    | cons c cs =>
      obtain ⟨after, hcons⟩ := Segment.first_prefix c cs
      have hshort : after.length < n := by
        have hpos := List.length_pos_iff.2 (Segment.first_ne_nil c cs)
        rw [← hlen, ← hcons, List.length_append]
        omega
      have hrest := ih after.length hshort (before ++ (Segment.first c cs).text) after rfl
      obtain ⟨hsegments, htokens, herrors⟩ := @cut_off before _ _ _ _ hcons rfl
      rw [← hsegments, ← htokens, ← herrors]
      rcases Segment.first_cases c cs with ⟨hfirst, hnone⟩ | ⟨row, hrow, hm, hsegment⟩
      · rw [hfirst] at hcons hrest ⊢
        obtain rfl := (List.cons.inj hcons).2
        exact .unexpected hnone hrest
      · have hlongest : ∀ other ∈ rows, ∀ v, other.pattern.Matches v →
            v <+: (Segment.first c cs).text ++ after →
            v.length ≤ (Segment.first c cs).text.length := by
          intro other hother v hv hpre
          rw [hcons] at hpre
          exact Segment.length_le_first hother hv hpre
        have hcut := Cut.of_row hrow hm (Segment.first_ne_nil c cs) hlongest hrest
        rw [hcons, hsegment] at hcut
        exact hcut

/-! ## There is no other way to cut a text -/

/-- What each rule cuts off is the first segment. -/
theorem Cut.unique {before rest ss ts es} (h : Cut before rest ss ts es) :
    ss = segments rest ∧ ts = tokensFrom before rest ∧ es = errorsFrom before rest := by
  induction h with
  | done =>
    unfold tokensFrom
    rw [List.append_nil]
    exact ⟨rfl, rfl, rfl⟩
  | @token before u rest _ _ _ row kind hrow hm hpiece hne hlongest _ ih =>
    obtain ⟨c, w, rfl⟩ := List.exists_cons_of_ne_nil hne
    have hfirst : Segment.first c (w ++ rest) = row.handling.segment (c :: w) :=
      Segment.first_of_longest hrow hm (List.prefix_append _ rest) hlongest
    have hsegment : row.handling.segment (c :: w) = ⟨.token kind, c :: w⟩ := by
      rw [← hpiece]
      exact congrArg (Segment.mk _) (Segment.text_segment hrow hm)
    rw [hsegment] at hfirst
    obtain ⟨rfl, rfl, rfl⟩ := ih
    exact cut_off rfl hfirst
  | @blank before u rest _ _ _ hne hall hnext _ ih =>
    obtain ⟨c, w, rfl⟩ := List.exists_cons_of_ne_nil hne
    obtain ⟨hc, hw⟩ := List.forall_mem_cons.1 hall
    have hfirst : Segment.first c (w ++ rest) = ⟨.blank, c :: w⟩ := by
      rw [first_blank _ hc, (takeWhile_append_stop hw hnext).1]
    obtain ⟨rfl, rfl, rfl⟩ := ih
    exact cut_off rfl hfirst
  | @comment before body rest _ _ _ hbody hnext _ ih =>
    have hstop : ∀ c ∈ rest.head?, decide (c ≠ '\n') = false := by
      intro c hc
      rw [hnext c hc]
      rfl
    have hall : ∀ c ∈ '/' :: body, decide (c ≠ '\n') = true :=
      Pattern.decide_ne_of_not_mem fun h => (List.mem_cons.1 h).elim (by decide) hbody
    have hfirst : Segment.first '/' ('/' :: body ++ rest) = ⟨.comment, '/' :: '/' :: body⟩ := by
      show (⟨.comment, '/' :: ('/' :: body ++ rest).takeWhile (· ≠ '\n')⟩ : Segment) = _
      rw [(takeWhile_append_stop hall hstop).1]
    obtain ⟨rfl, rfl, rfl⟩ := ih
    exact cut_off rfl hfirst
  | @unexpected before c rest _ _ _ hnone _ ih =>
    have hfirst : Segment.first c rest = ⟨.unexpected c, [c]⟩ := by
      rcases Segment.first_cases c rest with ⟨hfirst, -⟩ | ⟨row, hrow, hm, -⟩
      · exact hfirst
      · have hstart := Segment.first_prefix c rest
        exact absurd hm (hnone row hrow _ hstart)
    obtain ⟨rfl, rfl, rfl⟩ := ih
    exact cut_off rfl hfirst
  | @unterminated before body _ _ _ hbody _ ih =>
    have hrow : (⟨.unclosed, .unterminated⟩ : Row) ∈ rows := mem_rows.2 (by simp)
    have hfirst : Segment.first '"' body = ⟨.unterminated, '"' :: body⟩ :=
      Segment.first_of_matches hrow (Pattern.matches_unclosed.2 ⟨body, rfl, hbody⟩)
    obtain ⟨rfl, rfl, rfl⟩ := ih
    exact cut_off (List.append_nil _) hfirst

/-- A text is cut into its segments, tokens and faults and in no other way.  Its segments are what the
first row that matches makes of what is left, none of them is empty, and together they are the text;
the one closing token stands last, on the line on which the text ends. -/
theorem Token.ofText_cut (text : String) :
    (∀ ss ts es, Cut [] text.toList ss ts es ↔
      ss = segments text.toList ∧ ts = ofText text ∧ es = errorsIn text) ∧
    ((segments text.toList).map (·.text)).flatten = text.toList ∧
    (∀ s ∈ segments text.toList, s.text ≠ []) ∧
    (∀ c cs, segments (c :: cs) =
      let s := (firstCut? (c :: cs)).getD ⟨.unexpected c, [c]⟩
      s :: segments ((c :: cs).drop s.text.length)) ∧
    ∃ genuine, ofText text = genuine ++ [.eofAt (1 + newlines text.toList)] ∧
      ∀ t ∈ genuine, t.kind ≠ .eof := by
  refine ⟨fun ss ts es => ?_, join_segments _,
    fun s hs => text_ne_nil_of_mem _ _ hs, fun c cs => ?_, _, rfl,
    fun t ht => (genuine_of_mem_segmentsUpTo _ _ _ ht).kind_ne_eof⟩
  · constructor
    · exact Cut.unique
    · rintro ⟨rfl, rfl, rfl⟩
      exact cut_segments [] text.toList
  · rw [segments_cons, Segment.first_eq_firstCut?]

end LoxLang
