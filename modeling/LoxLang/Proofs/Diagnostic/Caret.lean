import LoxLang.Diagnostic.Report
import LoxLang.Proofs.Token.Placement
import Mathlib.Data.List.DropRight

/-!
The line and the caret of a frame.

If a text that is on one line stands behind `before`, the frame of its line shows it behind
`Text.lead before`, that is behind the last line of `before` without the blanks at its beginning
(`Text.lines_shown`).  The caret of a fault at a token is not set there: its column is the number of
bytes before the first occurrence of the lexeme in the shown line (`Diagnostic.frame_eq_frameAt`).
It stands below the token just if these bytes are as many as the characters of the lead.
-/

namespace LoxLang

namespace Text

/-! ## Lines -/

/-- What a shown line has before a place in it; `before` is all that the text has before it. -/
def lead (before : List Char) : List Char := (before.rtakeWhile (· ≠ '\n')).dropWhile isBlank

/-- Behind a newline the lines are those of what follows it. -/
theorem drop_lines_newline (cs rest : List Char) :
    (lines (cs ++ '\n' :: rest)).drop (newlines cs + 1) = lines rest := by
  induction cs with
  | nil => rfl
  | cons c cs ih =>
    rw [List.cons_append, lines, pieces]
    by_cases hc : c = '\n'
    · have hcount : newlines (c :: cs) = newlines cs + 1 := by rw [hc]; exact List.count_cons_self
      rw [if_pos hc, hcount, List.drop_succ_cons]
      exact ih
    · have hcount : newlines (c :: cs) = newlines cs := List.count_cons_of_ne hc
      rw [if_neg hc, hcount]
      split
      · exact ih
      · rw [lines] at ih
        split
        · rename_i hnil
          rw [hnil, List.drop_nil] at ih
          rw [← ih, List.drop_succ_cons, List.drop_nil]
        · rename_i first others hcons
          rw [hcons, List.drop_succ_cons] at ih
          rw [List.drop_succ_cons]
          exact ih

/-- A text on one line begins the first line. -/
theorem lines_cons {cs : List Char} (hne : cs ≠ []) (hline : '\n' ∉ cs)
    (hlast : ∀ c ∈ cs.getLast?, c ≠ '\r') (rest : List Char) :
    ∃ tail others, lines (cs ++ rest) = (cs ++ tail) :: others := by
  induction cs with
  | nil => exact absurd rfl hne
  | cons c cs ih =>
    have hc : c ≠ '\n' := fun he => hline (he ▸ List.mem_cons_self)
    rw [List.cons_append, lines, pieces, if_neg hc]
    cases cs with
    | nil =>
      have hreturn : c ≠ '\r' := hlast c rfl
      rw [if_neg (by simp [hreturn]), List.nil_append]
      cases pieces '\n' '\r' rest with
      | nil => exact ⟨[], [], rfl⟩
      | cons first others => exact ⟨first, others, rfl⟩
    | cons d ds =>
      have hd : d ≠ '\n' := fun he => hline (he ▸ by simp)
      obtain ⟨tail, others, hlines⟩ := ih (List.cons_ne_nil _ _)
        (fun hmem => hline (List.mem_cons_of_mem c hmem)) (fun e he => hlast e he)
      rw [lines] at hlines
      rw [if_neg (by simp [hd]), hlines]
      exact ⟨tail, others, rfl⟩

theorem not_mem_rtakeWhile (cs : List Char) : '\n' ∉ cs.rtakeWhile (· ≠ '\n') := by
  intro hmem
  simpa using List.mem_rtakeWhile_imp hmem

theorem newlines_rdropWhile (cs : List Char) :
    newlines (cs.rdropWhile (· ≠ '\n')) = newlines cs := by
  have hzero : newlines (cs.rtakeWhile (· ≠ '\n')) = 0 :=
    List.count_eq_zero_of_not_mem (not_mem_rtakeWhile cs)
  have hsplit := congrArg newlines (List.rdropWhile_append_rtakeWhile (p := (· ≠ '\n')) (l := cs))
  rwa [newlines_append, hzero, Nat.add_zero] at hsplit

/-- The lines from the one on which `before` ends are those of what follows its last newline. -/
theorem drop_lines (before rest : List Char) :
    (lines (before ++ rest)).drop (newlines before) =
      lines (before.rtakeWhile (· ≠ '\n') ++ rest) := by
  have hsplit := List.rdropWhile_append_rtakeWhile (p := (· ≠ '\n')) (l := before)
  have hcount := newlines_rdropWhile before
  have hstop := List.rdropWhile_last_not (· ≠ '\n') before
  generalize before.rdropWhile (· ≠ '\n') = earlier at hsplit hcount hstop
  rcases List.eq_nil_or_concat' earlier with rfl | ⟨earlier, c, rfl⟩
  · rw [List.nil_append] at hsplit
    rw [← hcount, hsplit]
    rfl
  · obtain rfl : c = '\n' := by simpa using hstop (by simp)
    have hone : newlines (earlier ++ ['\n']) = newlines earlier + 1 := newlines_append _ _
    rw [← hcount, hone]
    conv => lhs; rw [← hsplit, List.append_assoc, List.append_assoc]
    exact drop_lines_newline earlier _

/-! ## The shown line -/

theorem Solid.reverse {cs : List Char} (h : Solid cs) : Solid cs.reverse := by
  refine ⟨by simp [h.ne_nil], ?_, ?_⟩
  · rw [List.head?_reverse]
    exact h.last
  · rw [List.getLast?_reverse]
    exact h.head

theorem Solid.dropWhile_append {solid : List Char} (h : Solid solid) (cs rest : List Char) :
    (cs ++ (solid ++ rest)).dropWhile isBlank = cs.dropWhile isBlank ++ (solid ++ rest) := by
  have hstop : (solid ++ rest).dropWhile isBlank = solid ++ rest := by
    obtain ⟨c, more, rfl⟩ := List.exists_cons_of_ne_nil h.ne_nil
    rw [List.cons_append, List.dropWhile_cons_of_neg]
    rw [h.head c rfl]
    decide
  rw [List.dropWhile_append, hstop]
  split
  · rename_i hempty
    rw [List.isEmpty_iff.1 hempty, List.nil_append]
  · rfl

/-- Only what stands around it is trimmed. -/
theorem Solid.trimBlank {solid : List Char} (h : Solid solid) (cs rest : List Char) :
    ∃ tail, Text.trimBlank (cs ++ solid ++ rest) = cs.dropWhile isBlank ++ solid ++ tail := by
  refine ⟨(rest.reverse.dropWhile isBlank).reverse, ?_⟩
  rw [Text.trimBlank, List.append_assoc, h.dropWhile_append, List.reverse_append,
    List.reverse_append, List.append_assoc, h.reverse.dropWhile_append]
  simp

/-- The line of a text that is on one line shows it behind its lead. -/
theorem Solid.lines_shown {solid : List Char} (h : Solid solid) (hline : newlines solid = 0)
    (before after : List Char) :
    ∃ line tail, (lines (before ++ solid ++ after))[newlines before]? = some line ∧
      Text.trimBlank line = lead before ++ solid ++ tail := by
  have hnone : '\n' ∉ before.rtakeWhile (· ≠ '\n') ++ solid := by
    rw [List.mem_append]
    rintro (hmem | hmem)
    · exact not_mem_rtakeWhile before hmem
    · exact absurd hline (Nat.ne_of_gt (List.count_pos_iff.2 hmem))
  have hlast : ∀ c ∈ (before.rtakeWhile (· ≠ '\n') ++ solid).getLast?, c ≠ '\r' := by
    rintro c hc rfl
    rw [List.getLast?_append_of_ne_nil _ h.ne_nil] at hc
    exact absurd (h.last _ hc) (by decide)
  obtain ⟨rest, others, hlines⟩ := lines_cons (by simp [h.ne_nil]) hnone hlast after
  obtain ⟨tail, htrim⟩ := h.trimBlank (before.rtakeWhile (· ≠ '\n')) rest
  refine ⟨_, tail, ?_, htrim⟩
  rw [List.append_assoc, ← List.head?_drop, drop_lines, ← List.append_assoc, hlines]
  rfl

/-! ## First occurrences -/

theorem indexOf?_of_prefix {pattern cs : List Char} {k : Nat} (h : pattern <+: cs.drop k) :
    ∃ n, n ≤ k ∧ indexOf? pattern cs = some n := by
  induction cs generalizing k with
  | nil =>
    rw [List.drop_nil] at h
    refine ⟨0, Nat.zero_le k, ?_⟩
    rw [indexOf?, List.prefix_nil.1 h]
    rfl
  | cons c cs ih =>
    rw [indexOf?]
    by_cases hp : pattern.isPrefixOf (c :: cs) = true
    · exact ⟨0, Nat.zero_le k, if_pos hp⟩
    · cases k with
      | zero => exact absurd (List.isPrefixOf_iff_prefix.2 h) hp
      | succ k =>
        obtain ⟨n, hn, hindex⟩ := ih h
        refine ⟨n + 1, Nat.succ_le_succ hn, ?_⟩
        rw [if_neg hp, hindex]
        rfl

theorem byteSize_eq_length {cs : List Char} (h : ∀ c ∈ cs, c.utf8Size = 1) :
    byteSize cs = cs.length := by
  induction cs with
  | nil => rfl
  | cons c cs ih =>
    rw [byteSize, h c List.mem_cons_self, ih fun d hd => h d (List.mem_cons_of_mem c hd),
      List.length_cons, Nat.add_comm]

end Text

namespace Diagnostic

/-! ## Frames -/

/-- The frame that shows a line with the caret below the given character of it.  The bar is as wide
as the number of the line and the mark behind it. -/
def frameAt (d : Diagnostic) (file : String) (shown : List Char) (column : Nat) : String :=
  let number := toString d.line
  let bar := String.ofList (List.replicate (number.length + 1) ' ' ++ ['|'])
  d.frameHead file ++ (bar ++ "\n" ++ number ++ " | " ++ String.ofList shown ++ "\n" ++ bar ++
    String.ofList (' ' :: (List.replicate column '-' ++ ['^'])) ++ "\n")

theorem frameAt_inj {d : Diagnostic} {file : String} {shown : List Char} {a b : Nat} :
    d.frameAt file shown a = d.frameAt file shown b ↔ a = b := by
  constructor
  · intro h
    have hlength := congrArg String.length h
    simpa [frameAt] using hlength
  · rintro rfl
    rfl

theorem frame_eq_frameAt {d : Diagnostic} {lines : List (List Char)} {line : List Char}
    {column : Nat} (hline : lines[d.line - 1]? = some line)
    (hcaret : d.caret? (Text.trimBlank line) = some column) (file : String) :
    d.frame lines file = d.frameAt file (Text.trimBlank line) column := by
  rw [frame, hline, frameAt]
  dsimp only [frameBody]
  rw [hcaret]

/-- The frame of a fault in a report on `source` shows the token at fault behind `lead`; the caret is
at the number of bytes before the first of the places where its lexeme occurs, the `n`th one. -/
structure FoundAt (d : Diagnostic) (source file : String) (lead lexeme tail : List Char) (n : Nat) :
    Prop where
  first : Text.indexOf? lexeme (lead ++ lexeme ++ tail) = some n
  not_behind : n ≤ lead.length
  frame_eq : d.frame (Text.lines source.toList) file =
    d.frameAt file (lead ++ lexeme ++ tail) (Text.byteSize ((lead ++ lexeme ++ tail).take n))

section

variable {d : Diagnostic} {source file : String} {lead lexeme tail : List Char} {n : Nat}

/-- The caret is below the token just if there are as many bytes before the first occurrence as
characters before the token. -/
theorem FoundAt.beneath_iff (h : d.FoundAt source file lead lexeme tail n) :
    d.frame (Text.lines source.toList) file =
        d.frameAt file (lead ++ lexeme ++ tail) lead.length ↔
      Text.byteSize ((lead ++ lexeme ++ tail).take n) = lead.length := by
  rw [h.frame_eq, frameAt_inj]

/-- So it is if the lexeme does not occur earlier and each character before it takes one byte. -/
theorem FoundAt.beneath (h : d.FoundAt source file lead lexeme tail n)
    (hfirst : ∀ k < lead.length, ¬ lexeme <+: (lead ++ lexeme ++ tail).drop k)
    (hbytes : ∀ c ∈ lead, c.utf8Size = 1) :
    d.frame (Text.lines source.toList) file =
      d.frameAt file (lead ++ lexeme ++ tail) lead.length := by
  have hn : n = lead.length := by
    rcases Nat.lt_or_eq_of_le h.not_behind with hlt | heq
    · exact absurd (Text.prefix_of_indexOf? h.first) (hfirst n hlt)
    · exact heq
  rw [h.beneath_iff, hn, List.append_assoc, List.take_left]
  exact Text.byteSize_eq_length hbytes

end

/-- A fault at a token that is on one line of the source. -/
theorem foundAt_of_split (cause : Cause) {t : Token} {source : String} {before after : List Char}
    (hgenuine : t.Genuine) (hone : Text.newlines t.lexeme.toList = 0)
    (hsplit : source.toList = before ++ t.lexeme.toList ++ after)
    (hline : t.line = 1 + Text.newlines (before ++ t.lexeme.toList)) (file : String) :
    ∃ tail n, (atToken cause t).FoundAt source file (Text.lead before) t.lexeme.toList tail n := by
  obtain ⟨line, tail, hlines, htrim⟩ := hgenuine.solid.lines_shown hone before after
  have hprefix : t.lexeme.toList <+:
      (Text.lead before ++ t.lexeme.toList ++ tail).drop (Text.lead before).length := by
    rw [List.append_assoc, List.drop_left]
    exact List.prefix_append _ _
  obtain ⟨n, hn, hindex⟩ := Text.indexOf?_of_prefix hprefix
  have hnumber : (atToken cause t).line - 1 = Text.newlines before := by
    show t.line - 1 = _
    rw [hline, Text.newlines_append, hone]
    omega
  have hlocation : (atToken cause t).location = .lexeme t.lexeme := if_neg hgenuine.kind_ne_eof
  have hcaret : (atToken cause t).caret? (Text.trimBlank line) =
      some (Text.byteSize ((Text.lead before ++ t.lexeme.toList ++ tail).take n)) := by
    rw [caret?, hlocation, htrim]
    dsimp only
    rw [hindex]
    rfl
  refine ⟨tail, n, hindex, hn, ?_⟩
  rw [← hsplit, ← hnumber] at hlines
  rw [frame_eq_frameAt hlines hcaret, htrim]

end Diagnostic

end LoxLang
