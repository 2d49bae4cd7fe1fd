import LoxLang.Proofs.Token.Cutting

/-!
A text read by byte positions.

A scanner has a position, counted in bytes, and takes slices of the text.  A slice is there only if both
its ends lie between two characters (`Text.slice?_eq_some`).  At each step the first row that matches
what is left handles it, and each handling moves on by a number of bytes of its own.  The position
always lies between two characters and the slices are always there, and what the scanner collects are
the tokens and the faults of the text (`Token.scanned?_eq`).
-/

namespace LoxLang

/-! ## Slices -/

namespace Text

/-- The first `n` bytes and what is left behind them, if a character ends there. -/
def splitBytes? : Nat → List Char → Option (List Char × List Char)
  | 0, cs => some ([], cs)
  | _ + 1, [] => none
  | n + 1, c :: cs =>
    if c.utf8Size ≤ n + 1 then
      (splitBytes? (n + 1 - c.utf8Size) cs).map fun w => (c :: w.1, w.2)
    else none

/-- The text from byte `start` up to byte `stop`, if these are boundaries between characters. -/
def slice? (cs : List Char) (start stop : Nat) : Option (List Char) :=
  if start ≤ stop then
    (splitBytes? start cs).bind fun w => (splitBytes? (stop - start) w.2).map (·.1)
  else none

theorem byteSize_append (as bs : List Char) : byteSize (as ++ bs) = byteSize as + byteSize bs := by
  induction as with
  | nil => exact (Nat.zero_add _).symm
  | cons a as ih => rw [List.cons_append, byteSize, byteSize, ih, Nat.add_assoc]

theorem byteSize_pos {cs : List Char} (h : cs ≠ []) : 0 < byteSize cs := by
  obtain ⟨c, rest, rfl⟩ := List.exists_cons_of_ne_nil h
  have := c.utf8Size_pos
  rw [byteSize]
  omega

theorem splitBytes?_eq_some {n : Nat} {cs u rest : List Char} :
    splitBytes? n cs = some (u, rest) ↔ cs = u ++ rest ∧ n = byteSize u := by
  induction cs generalizing n u with
  | nil =>
    cases n with
    | zero =>
      constructor
      · intro h
        cases h
        exact ⟨rfl, rfl⟩
      · rintro ⟨h, -⟩
        obtain ⟨rfl, rfl⟩ := List.append_eq_nil_iff.1 h.symm
        rfl
    | succ n =>
      constructor
      · intro h
        cases h
      · rintro ⟨h, hn⟩
        obtain ⟨rfl, -⟩ := List.append_eq_nil_iff.1 h.symm
        cases hn
  | cons c cs ih =>
    have hpos := c.utf8Size_pos
    cases n with
    | zero =>
      constructor
      · intro h
        cases h
        exact ⟨rfl, rfl⟩
      · rintro ⟨h, hn⟩
        cases u with
        | nil =>
          obtain rfl : c :: cs = rest := h
          rfl
        | cons d u => exact absurd (byteSize_pos (List.cons_ne_nil d u)) (by omega)
    | succ n =>
      rw [splitBytes?]
      constructor
      · intro h
        split at h
        · rename_i hle
          obtain ⟨⟨v, after⟩, hv, hsplit⟩ := Option.map_eq_some_iff.1 h
          cases hsplit
          obtain ⟨rfl, hn⟩ := ih.1 hv
          refine ⟨rfl, ?_⟩
          show n + 1 = c.utf8Size + byteSize v
          omega
        · cases h
      · rintro ⟨h, hn⟩
        cases u with
        | nil => cases hn
        | cons d u =>
          obtain ⟨rfl, htail⟩ := List.cons.inj h
          rw [byteSize] at hn
          rw [if_pos (by omega), ih.2 ⟨htail, by omega⟩]
          rfl

/-- A slice is what stands between two boundaries. -/
theorem slice?_eq_some {cs u : List Char} {start stop : Nat} :
    slice? cs start stop = some u ↔
      ∃ before after, cs = before ++ u ++ after ∧ start = byteSize before ∧
        stop = byteSize (before ++ u) := by
  rw [slice?]
  constructor
  · intro h
    split at h
    · rename_i hle
      obtain ⟨⟨before, rest⟩, hbefore, h⟩ := Option.bind_eq_some_iff.1 h
      obtain ⟨⟨u, after⟩, hu, rfl⟩ := Option.map_eq_some_iff.1 h
      obtain ⟨rfl, hstart⟩ := splitBytes?_eq_some.1 hbefore
      obtain ⟨rfl, hsize⟩ := splitBytes?_eq_some.1 hu
      refine ⟨before, after, (List.append_assoc _ _ _).symm, hstart, ?_⟩
      show stop = byteSize (before ++ u)
      rw [byteSize_append]
      omega
    · cases h
  · rintro ⟨before, after, rfl, rfl, rfl⟩
    rw [byteSize_append, if_pos (by omega), Nat.add_sub_cancel_left,
      splitBytes?_eq_some.2 ⟨List.append_assoc before u after, rfl⟩, Option.bind_some,
      splitBytes?_eq_some.2 ⟨rfl, rfl⟩]
    rfl

end Text

/-! ## The scanner -/

structure Scanner where
  /-- In bytes. -/
  position : Nat
  line : Nat
  tokens : List Token
  errors : List LexicalError

namespace Scanner

/-- What is left of the text. -/
def remainder? (source : List Char) (s : Scanner) : Option (List Char) :=
  Text.slice? source s.position (Text.byteSize source)

/-- Moving on by some bytes, but not beyond the end, and counting the newlines that are passed. -/
def advance? (source : List Char) (bytes : Nat) (s : Scanner) : Option Scanner :=
  let stop := min (s.position + bytes) (Text.byteSize source)
  (Text.slice? source s.position stop).map fun passed =>
    { s with position := stop, line := s.line + Text.newlines passed }

def push (t : Token) (s : Scanner) : Scanner := { s with tokens := s.tokens ++ [t] }

def report (e : LexicalError) (s : Scanner) : Scanner := { s with errors := s.errors ++ [e] }

/-- What a row does where it matches.  Only strings, closed or open, can hold a newline, and these take
the line behind them. -/
def handle? (source : List Char) (row : Row) (s : Scanner) : Option Scanner := do
  match row.handling with
  | .mark kind lexeme =>
    (s.push ⟨kind, String.ofList lexeme, none, s.line⟩).advance? source (Text.byteSize lexeme)
  | handling =>
    let rest ← s.remainder? source
    let some matched := row.pattern.find? rest | return s
    let lexeme := String.ofList matched
    let size := Text.byteSize matched
    match handling with
    | .word =>
      let after ← s.advance? source size
      return after.push ⟨Kind.ofWord lexeme, lexeme, none, s.line⟩
    | .number =>
      let value := (Number.ofText? lexeme).getD 0
      (s.push ⟨.number, lexeme, some (.number value), s.line⟩).advance? source size
    | .string =>
      let after ← s.advance? source size
      let value ← Text.slice? matched 1 (size - 1)
      return after.push ⟨.string, lexeme, some (.string (String.ofList value)), after.line⟩
    | .unterminated =>
      let after ← s.advance? source size
      return after.report ⟨after.line, .unterminatedString⟩
    | _ => s.advance? source size

/-- One step: the first row that matches, or an unexpected character. -/
def next? (source : List Char) (s : Scanner) : Option Scanner := do
  let rest ← s.remainder? source
  match rows.find? fun row => (row.pattern.find? rest).isSome with
  | some row => s.handle? source row
  | none =>
    let c := rest.head?.getD '\x00'
    (s.report ⟨s.line, .unexpectedCharacter c⟩).advance? source c.utf8Size

/-- Steps until the end of the text, at most `bound` of them. -/
def scan? (source : List Char) : Nat → Scanner → Option Scanner
  | 0, s => if s.position < Text.byteSize source then none else some s
  | bound + 1, s =>
    if s.position < Text.byteSize source then (s.next? source).bind (scan? source bound) else some s

end Scanner

/-- The tokens and the faults that a scanner collects; none if a slice is not there, or if the end is
not reached in as many steps as there are characters. -/
def Token.scanned? (text : String) : Option (List Token × List LexicalError) :=
  (Scanner.scan? text.toList text.toList.length ⟨0, 1, [], []⟩).map fun s =>
    (s.tokens ++ [eofAt s.line], s.errors)

/-! ## One step of the scanner -/

namespace Scanner

/-- The scanner stands between what is behind it and what is ahead. -/
structure Between (source before rest : List Char) (s : Scanner) : Prop where
  split : source = before ++ rest
  position : s.position = Text.byteSize before
  line : s.line = 1 + Text.newlines before

variable {source before rest u : List Char} {s : Scanner}

theorem Between.remainder? (h : s.Between source before rest) :
    s.remainder? source = some rest := by
  rw [Scanner.remainder?, Text.slice?_eq_some]
  exact ⟨before, [], by rw [h.split, List.append_nil], h.position, by rw [h.split]⟩

/-- The scanner behind a piece of what is ahead. -/
def behind (before u : List Char) (s : Scanner) : Scanner :=
  { s with position := Text.byteSize (before ++ u), line := 1 + Text.newlines (before ++ u) }

theorem Between.behind (h : s.Between source before (u ++ rest)) :
    (s.behind before u).Between source (before ++ u) rest :=
  ⟨by rw [h.split, List.append_assoc], rfl, rfl⟩

theorem Between.advance? (h : s.Between source before (u ++ rest)) :
    s.advance? source (Text.byteSize u) = some (s.behind before u) := by
  have hstop : min (s.position + Text.byteSize u) (Text.byteSize source) =
      Text.byteSize (before ++ u) := by
    rw [h.split, h.position, Text.byteSize_append, Text.byteSize_append, Text.byteSize_append]
    omega
  have hslice : Text.slice? source s.position (Text.byteSize (before ++ u)) = some u :=
    Text.slice?_eq_some.2 ⟨before, rest, by rw [h.split, List.append_assoc], h.position, rfl⟩
  rw [Scanner.advance?, hstop, hslice, h.line, Option.map_some, Nat.add_assoc, ← Text.newlines_append]
  rfl

/-- The scanner behind a segment, with its token or its fault. -/
def past (before : List Char) (g : Segment) (s : Scanner) : Scanner :=
  { s.behind before g.text with
    tokens := s.tokens ++ (g.token? (1 + Text.newlines (before ++ g.text))).toList
    errors := s.errors ++ (g.error? (1 + Text.newlines (before ++ g.text))).toList }

/-- Words, numbers and marks are on one line. -/
theorem newlines_eq_zero {row : Row} (hrow : row ∈ rows) (hm : row.pattern.Matches u)
    (hline : row.handling = .word ∨ row.handling = .number ∨
      ∃ kind lexeme, row.handling = .mark kind lexeme) : Text.newlines u = 0 := by
  have hmarks : ∀ m ∈ marks, '\n' ∉ m.1 := by decide
  rw [Text.newlines, List.count_eq_zero]
  rcases mem_rows.1 hrow with rfl | rfl | rfl | rfl | rfl | rfl | ⟨m, hmark, rfl⟩
  · obtain ⟨c, w, rfl, hc, hw⟩ := Pattern.matches_led.1 hm
    intro hmem
    rcases List.mem_cons.1 hmem with rfl | hmem
    · exact absurd hc (by decide)
    · exact absurd (hw _ hmem) (by decide)
  · exact List.count_eq_zero.1 (Pattern.matches_numeral.1 hm).newlines
  · simp at hline
  · simp at hline
  · simp at hline
  · simp at hline
  · rw [Pattern.matches_text.1 hm]
    exact hmarks m hmark

/-- What stands between the quotes is cut out between two characters. -/
theorem slice?_quoted (body : List Char) :
    Text.slice? ('"' :: (body ++ ['"'])) 1 (Text.byteSize ('"' :: (body ++ ['"'])) - 1) =
      some body := by
  refine Text.slice?_eq_some.2 ⟨['"'], ['"'], rfl, rfl, ?_⟩
  have hquote : Text.byteSize ['"'] = 1 := rfl
  rw [← List.singleton_append, Text.byteSize_append, Text.byteSize_append, Text.byteSize_append]
  omega

/-- A token of the line before the match is one of the line behind it if the match is on one line. -/
theorem Between.line_eq (h : s.Between source before (u ++ rest)) (hzero : Text.newlines u = 0) :
    s.line = 1 + Text.newlines (before ++ u) := by
  rw [h.line, Text.newlines_append, hzero, Nat.add_zero]

/-- What has been collected does not matter for the way on. -/
theorem Between.push (h : s.Between source before rest) (t : Token) :
    (s.push t).Between source before rest := ⟨h.split, h.position, h.line⟩

theorem Between.report (h : s.Between source before rest) (e : LexicalError) :
    (s.report e).Between source before rest := ⟨h.split, h.position, h.line⟩

theorem past_token {g : Segment} {t : Token}
    (ht : g.token? (1 + Text.newlines (before ++ g.text)) = some t)
    (he : g.error? (1 + Text.newlines (before ++ g.text)) = none) :
    s.past before g = (s.behind before g.text).push t := by
  rw [past, ht, he, Option.toList_none, List.append_nil]
  rfl

theorem past_error {g : Segment} {e : LexicalError}
    (ht : g.token? (1 + Text.newlines (before ++ g.text)) = none)
    (he : g.error? (1 + Text.newlines (before ++ g.text)) = some e) :
    s.past before g = (s.behind before g.text).report e := by
  rw [past, ht, he, Option.toList_none, List.append_nil]
  rfl

theorem past_skipped {g : Segment} (ht : g.token? (1 + Text.newlines (before ++ g.text)) = none)
    (he : g.error? (1 + Text.newlines (before ++ g.text)) = none) :
    s.past before g = s.behind before g.text := by
  rw [past, ht, he, Option.toList_none, Option.toList_none, List.append_nil, List.append_nil]
  rfl

/-- Each row moves on by what it matches, and leaves the segment that it makes. -/
theorem Between.handle? (h : s.Between source before (u ++ rest)) {row : Row} (hrow : row ∈ rows)
    (hm : row.pattern.Matches u) (hfind : row.pattern.find? (u ++ rest) = some u) :
    s.handle? source row = some (s.past before (row.handling.segment u)) := by
  have hzero := newlines_eq_zero hrow hm
  have hrest := h.remainder?
  have hadvance := h.advance?
  unfold Scanner.handle?
  rcases mem_rows.1 hrow with rfl | rfl | rfl | rfl | rfl | rfl | ⟨m, hmark, rfl⟩
  · have hliteral := Kind.literal?_ofWord (String.ofList u) u
    have htoken : Segment.token? ⟨.token (Kind.ofWord (String.ofList u)), u⟩
        (1 + Text.newlines (before ++ u)) =
          some ⟨Kind.ofWord (String.ofList u), String.ofList u, none, s.line⟩ := by
      rw [h.line_eq (hzero (.inl rfl)), ← hliteral]
      rfl
    simp only [hrest, hfind, hadvance, Option.bind_eq_bind, Option.bind_some]
    exact congrArg some (past_token htoken rfl).symm
  · have htoken : Segment.token? ⟨.token .number, u⟩ (1 + Text.newlines (before ++ u)) =
          some ⟨.number, String.ofList u,
            some (.number ((Number.ofText? (String.ofList u)).getD 0)), s.line⟩ := by
      rw [h.line_eq (hzero (.inr (.inl rfl)))]
      rfl
    simp only [hrest, hfind, (h.push _).advance?, Option.bind_eq_bind, Option.bind_some]
    exact congrArg some (past_token htoken rfl).symm
  · simp only [hrest, hfind, hadvance, Option.bind_eq_bind, Option.bind_some]
    exact congrArg some (past_skipped (g := ⟨.blank, u⟩) rfl rfl).symm
  · have hslice : Text.slice? u 1 (Text.byteSize u - 1) = some u.tail.dropLast := by
      obtain ⟨body, rfl, -⟩ := Pattern.matches_quoted.1 hm
      rw [slice?_quoted, List.tail_cons, List.dropLast_concat]
    simp only [hrest, hfind, hadvance, hslice, Option.bind_eq_bind, Option.bind_some]
    exact congrArg some (past_token (g := ⟨.token .string, u⟩) rfl rfl).symm
  · simp only [hrest, hfind, hadvance, Option.bind_eq_bind, Option.bind_some]
    exact congrArg some (past_error (g := ⟨.unterminated, u⟩) rfl rfl).symm
  · simp only [hrest, hfind, hadvance, Option.bind_eq_bind, Option.bind_some]
    exact congrArg some (past_skipped (g := ⟨.comment, u⟩) rfl rfl).symm
  · obtain rfl := Pattern.matches_text.1 hm
    have hliteral := Kind.literal?_of_mem_marks m hmark
    have htoken : Segment.token? ⟨.token m.2, m.1⟩ (1 + Text.newlines (before ++ m.1)) =
        some ⟨m.2, String.ofList m.1, none, s.line⟩ := by
      rw [h.line_eq (hzero (.inr (.inr ⟨_, _, rfl⟩))), ← hliteral]
      rfl
    show Scanner.advance? source (Text.byteSize m.1) _ = _
    rw [(h.push _).advance?]
    exact congrArg some (past_token htoken rfl).symm

/-- The row that is tried first and matches is the one that decides. -/
theorem find?_rows (cs : List Char) :
    firstRow? cs = (rows.find? fun row => (row.pattern.find? cs).isSome).bind fun row =>
      (row.pattern.find? cs).map (row, ·) := by
  unfold firstRow?
  induction rows with
  | nil => rfl
  | cons row rows ih =>
    rw [List.findSome?_cons, List.find?_cons]
    cases hfind : row.pattern.find? cs with
    | none => exact ih
    | some u =>
      show _ = (row.pattern.find? cs).map (row, ·)
      rw [hfind]
      rfl

/-- A step of the scanner passes the first segment. -/
theorem Between.next? {c : Char} {cs : List Char} (h : s.Between source before (c :: cs)) :
    s.next? source = some (s.past before (Segment.first c cs)) := by
  unfold Scanner.next?
  rw [h.remainder?]
  show (match rows.find? fun row => (row.pattern.find? (c :: cs)).isSome with
    | some row => s.handle? source row
    | none => (s.report ⟨s.line, .unexpectedCharacter c⟩).advance? source c.utf8Size) = _
  have hcut := find?_rows (c :: cs)
  cases hrows : rows.find? fun row => (row.pattern.find? (c :: cs)).isSome with
  | some row =>
    have hsome : (row.pattern.find? (c :: cs)).isSome = true := List.find?_some
      (p := fun row : Row => (row.pattern.find? (c :: cs)).isSome) hrows
    obtain ⟨u, hu⟩ := Option.isSome_iff_exists.1 hsome
    obtain ⟨⟨after, hcons⟩, hm⟩ := Pattern.find?_eq_some hu
    rw [hrows, Option.bind_some, hu] at hcut
    have hfirst : Segment.first c cs = row.handling.segment u := by
      rw [Segment.first_eq_firstCut?, firstCut?, hcut]
      rfl
    rw [← hcons] at h hu
    rw [hfirst]
    exact h.handle? (List.mem_of_find?_eq_some hrows) hm hu
  | none =>
    rw [hrows] at hcut
    have hfirst : Segment.first c cs = ⟨.unexpected c, [c]⟩ := by
      rw [Segment.first_eq_firstCut?, firstCut?, hcut]
      rfl
    have hsplit : s.Between source before ([c] ++ cs) := h
    have hline : s.line = 1 + Text.newlines (before ++ [c]) := by
      refine hsplit.line_eq (List.count_eq_zero.2 fun hmem => ?_)
      -- A newline is a blank, so a row matches it.
      rw [List.mem_singleton] at hmem
      rw [← hmem, first_blank cs Text.isBlank_newline] at hfirst
      cases congrArg Segment.piece hfirst
    have hadvance := (hsplit.report ⟨s.line, .unexpectedCharacter c⟩).advance?
    rw [hfirst]
    show Scanner.advance? source (Text.byteSize [c]) _ = _
    rw [hadvance, hline]
    exact congrArg some (past_error (g := ⟨.unexpected c, [c]⟩) rfl rfl).symm

/-- A segment is passed into the next place between characters. -/
theorem Between.past {g : Segment} (h : s.Between source before (g.text ++ rest)) :
    (s.past before g).Between source (before ++ g.text) rest := ⟨h.behind.split, rfl, rfl⟩

/-! ## All steps -/

theorem Between.scan? {bound : Nat} (h : s.Between source before rest)
    (hbound : rest.length ≤ bound) :
    (s.scan? source bound).map (fun t => (t.tokens ++ [Token.eofAt t.line], t.errors)) =
      some (s.tokens ++ tokensFrom before rest, s.errors ++ errorsFrom before rest) := by
  have hend : ∀ (s : Scanner) (before : List Char), s.Between source before [] →
      ¬ s.position < Text.byteSize source ∧
        some (s.tokens ++ [Token.eofAt s.line], s.errors) =
          some (s.tokens ++ tokensFrom before [], s.errors ++ errorsFrom before []) := by
    intro s before h
    constructor
    · rw [h.position, h.split, List.append_nil]
      exact Nat.lt_irrefl _
    · have htokens : tokensFrom before [] = [Token.eofAt s.line] := by
        rw [h.line]
        show [Token.eofAt (1 + Text.newlines (before ++ []))] = _
        rw [List.append_nil]
      have herrors : errorsFrom before [] = [] := rfl
      rw [htokens, herrors, List.append_nil]
  induction bound generalizing s before rest with
  | zero =>
    obtain rfl := List.length_eq_zero_iff.1 (Nat.le_zero.1 hbound)
    obtain ⟨hstop, heq⟩ := hend s before h
    rw [Scanner.scan?, if_neg hstop]
    exact heq
  | succ bound ih =>
    cases rest with
    | nil =>
      obtain ⟨hstop, heq⟩ := hend s before h
      rw [Scanner.scan?, if_neg hstop]
      exact heq
    | cons c cs =>
      have hmore : s.position < Text.byteSize source := by
        have := Text.byteSize_pos (List.cons_ne_nil c cs)
        rw [h.position, h.split, Text.byteSize_append]
        omega
      obtain ⟨after, hcons⟩ := Segment.first_prefix c cs
      have hshort : after.length ≤ bound := by
        have := List.length_pos_iff.2 (Segment.first_ne_nil c cs)
        have hlength := congrArg List.length hcons
        rw [List.length_append] at hlength
        omega
      have hstep := h.next?
      rw [← hcons] at h
      obtain ⟨-, htokens, herrors⟩ := @cut_off before _ _ _ _ hcons rfl
      rw [Scanner.scan?, if_pos hmore, hstep, Option.bind_some, ih h.past hshort, ← htokens,
        ← herrors, ← List.append_assoc, ← List.append_assoc]
      rfl

end Scanner

/-- Every slice that the scanner takes is there, and it collects the tokens and the faults. -/
theorem Token.scanned?_eq (text : String) :
    scanned? text = some (ofText text, errorsIn text) := by
  have hstart : Scanner.Between text.toList [] text.toList ⟨0, 1, [], []⟩ := ⟨rfl, rfl, rfl⟩
  exact hstart.scan? (Nat.le_refl _)

end LoxLang
