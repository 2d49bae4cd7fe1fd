import LoxLang.Proofs.Syntax.MadeOf
import LoxLang.Proofs.Syntax.Renaming
import LoxLang.Proofs.Token.Genuine

/-!
The literals of a text's tokens are redundant.

A number or a string token without a literal is read by its lexeme.  For the tokens of a text this
comes to the literal that they have, so putting in what is read undoes taking literals out
(`Token.filled_withoutLiterals`), and reading does not see whether it has been done
(`keepsText_filled`).  So the literals of any of the tokens may be missing
(`Program.literals_redundant`).
-/

namespace LoxLang

/-- Numbers and strings have a literal. -/
abbrev Kind.HasLiteral (k : Kind) : Prop := k = .number ∨ k = .string

namespace Token

/-- A number or a string token with its literal taken out. -/
def withoutLiteral (t : Token) : Token :=
  if t.kind.HasLiteral then { t with literal := none } else t

/-- The tokens with the literal taken out of those numbers and strings whose positions are chosen. -/
def withoutLiterals (chosen : Nat → Bool) (tokens : List Token) : List Token :=
  tokens.mapIdx fun i t => if chosen i then t.withoutLiteral else t

/-- A token with the literal that it is read as having. -/
def filled (t : Token) : Token :=
  match t.literal, t.kind with
  | none, .number => { t with literal := some (.number (Read.numberOf t)) }
  | none, .string => { t with literal := some (.string (Read.stringOf t)) }
  | _, _ => t

theorem filled_of_literal {t : Token} {l : Literal} (h : t.literal = some l) : t.filled = t := by
  rw [filled, h]

theorem filled_of_kind {t : Token} (h : t.kind ≠ .number ∧ t.kind ≠ .string) : t.filled = t := by
  unfold filled
  split
  · exact absurd ‹_› h.1
  · exact absurd ‹_› h.2
  · rfl

/-- What fills a token, it has as its literal only. -/
theorem exists_filled (t : Token) : ∃ l, t.filled = { t with literal := l } := by
  unfold filled
  split <;> exact ⟨_, rfl⟩

theorem withoutLiteral_filled (t : Token) : t.filled.withoutLiteral = t.withoutLiteral := by
  by_cases hk : t.kind.HasLiteral
  · obtain ⟨l, h⟩ := t.exists_filled
    rw [h, withoutLiteral, if_pos hk, withoutLiteral, if_pos hk]
  · rw [filled_of_kind (not_or.1 hk)]

end Token

open Token

theorem keepsText_filled : KeepsText filled where
  kind t := by
    obtain ⟨l, h⟩ := t.exists_filled
    rw [h]
  lexeme t := by
    obtain ⟨l, h⟩ := t.exists_filled
    rw [h]
  number t := by
    unfold filled
    split
    · rfl
    · rename_i hl _
      rw [Read.numberOf, Read.numberOf, hl]
    · rfl
  string t := by
    unfold filled
    split
    · rename_i hl _
      rw [Read.stringOf, Read.stringOf, hl]
    · rfl
    · rfl

/-! ## The tokens of a text -/

theorem unquote_quoted {body : List Char} (h : '"' ∉ body) :
    Read.unquote (String.ofList ('"' :: (body ++ ['"']))) = String.ofList body := by
  have hopening : ('"' :: (body ++ ['"'])).dropWhile (· == '"') =
      (body ++ ['"']).dropWhile (· == '"') := List.dropWhile_cons_of_pos rfl
  have hkeep : ∀ {d : Char} {ds : List Char}, d ∈ body →
      (d :: ds).dropWhile (· == '"') = d :: ds := by
    intro d ds hd
    refine List.dropWhile_cons_of_neg ?_
    rw [beq_iff_eq]
    rintro rfl
    exact h hd
  have hclosing : ((body ++ ['"']).dropWhile (· == '"')).reverse.dropWhile (· == '"') =
      body.reverse := by
    cases body with
    | nil => rfl
    | cons c cs =>
      rw [List.cons_append, hkeep List.mem_cons_self, ← List.cons_append, List.reverse_append]
      show (c :: cs).reverse.dropWhile _ = _
      cases hlast : (c :: cs).reverse with
      | nil => rfl
      | cons d ds => exact hkeep (List.mem_reverse.1 (hlast ▸ List.mem_cons_self))
  simp only [Read.unquote, String.toList_ofList, hopening, hclosing, List.reverse_reverse]

namespace Token

/-- A string denotes its lexeme without the quotes around it. -/
theorem Genuine.unquoted {t : Token} (h : t.Genuine) (hk : t.kind = .string) :
    t.literal = some (.string (Read.unquote t.lexeme)) := by
  cases h with
  | word => exact absurd hk (Kind.ofWord_ne (by decide) (by decide) _)
  | number => cases hk
  | string hb => rw [unquote_quoted hb]
  | mark hm =>
    have hmarks : ∀ m ∈ marks, m.2 ≠ .string := by decide
    exact absurd hk (hmarks _ hm)

/-- A token that some text has is read as having the literal that it has. -/
theorem Genuine.filled_withoutLiteral {t : Token} (h : t.Genuine) : t.withoutLiteral.filled = t := by
  by_cases hk : t.kind.HasLiteral
  · rw [withoutLiteral, if_pos hk]
    obtain ⟨kind, lexeme, literal, line⟩ := t
    rcases hk with rfl | rfl
    · exact congrArg (Token.mk .number lexeme · line) (h.isNumeral rfl).2.symm
    · exact congrArg (Token.mk .string lexeme · line) (h.unquoted rfl).symm
  · rw [withoutLiteral, if_neg hk]
    exact filled_of_kind (not_or.1 hk)

theorem Genuine.filled_eq {t : Token} (h : t.Genuine) : t.filled = t := by
  by_cases hk : t.kind.HasLiteral
  · rcases hk with hk | hk
    · exact filled_of_literal (h.isNumeral hk).2
    · exact filled_of_literal (h.unquoted hk)
  · exact filled_of_kind (not_or.1 hk)

/-- Whichever literals are taken out of the tokens of a text, they are put in again. -/
theorem filled_withoutLiterals (chosen : Nat → Bool) (text : String) :
    (withoutLiterals chosen (ofText text)).map filled = ofText text := by
  have hback : ∀ t ∈ ofText text, t.filled = t ∧ t.withoutLiteral.filled = t := by
    intro t ht
    by_cases hk : t.kind = .eof
    · have hne : t.kind ≠ .number ∧ t.kind ≠ .string := by rw [hk]; decide
      have hsame : t.withoutLiteral = t := if_neg (not_or.2 hne)
      rw [hsame]
      exact ⟨filled_of_kind hne, filled_of_kind hne⟩
    · have hgenuine := genuine_of_mem ht hk
      exact ⟨hgenuine.filled_eq, hgenuine.filled_withoutLiteral⟩
  apply List.ext_getElem?
  intro i
  rw [List.getElem?_map, withoutLiterals, List.getElem?_mapIdx]
  cases ht : (ofText text)[i]? with
  | none => rfl
  | some t =>
    obtain ⟨hkept, htaken⟩ := hback t (List.mem_of_getElem? ht)
    show some (if chosen i then t.withoutLiteral else t).filled = some t
    split
    · rw [htaken]
    · rw [hkept]

end Token

/-! ## Programs -/

/-- Faults are reported without literals. -/
theorem diagnostics_filled (faults : List TokenError) :
    (faults.map (·.relabel filled)).map (·.diagnostic) = faults.map (·.diagnostic) := by
  rw [List.map_map]
  refine List.map_congr_left fun e _ => ?_
  obtain ⟨l, h⟩ := e.token.exists_filled
  show (TokenError.mk e.token.filled e.cause).diagnostic = e.diagnostic
  rw [h]
  rfl

theorem withoutLiterals_filled (faults : List TokenError) :
    (faults.map (·.relabel filled)).map (·.relabel withoutLiteral) =
      faults.map (·.relabel withoutLiteral) := by
  rw [List.map_map]
  refine List.map_congr_left fun e _ => ?_
  show TokenError.mk e.token.filled.withoutLiteral e.cause = e.relabel withoutLiteral
  rw [withoutLiteral_filled]
  rfl

/-- A program has no number or string tokens, so putting in literals does not change it. -/
theorem unnumbered_filled {ss : List Stmt} (h : Stmt.MadeOfAll (fun _ => True) ss) (d : Nat) :
    unnumbered (Stmt.movedAll filled d ss) = unnumbered ss := by
  have hsame : Stmt.movedAll filled d ss = Stmt.movedAll id d ss :=
    Stmt.relabelAll_congr (fun t _ hk => filled_of_kind hk) (· + d) ss h
  rw [hsame, Program.unnumbered_movedAll]

namespace Program

/-- Tokens with their literals taken out make up the program that the text does, but for the literals
of the tokens at which faults are. -/
theorem ofTokens_withoutLiterals (chosen : Nat → Bool) (source : String) (nextId : NodeId) :
    ofTokens (ofText source) nextId =
      (ofTokens (withoutLiterals chosen (ofText source)) nextId).relabel filled 0 := by
  obtain ⟨us, last, hus, hlast⟩ : ∃ us last, withoutLiterals chosen (ofText source) = us ++ [last] ∧
      last.kind = .eof := by
    rw [withoutLiterals, ofText, List.mapIdx_concat]
    refine ⟨_, _, rfl, ?_⟩
    split <;> rfl
  have hread := ofTokens_map keepsText_filled 0 us hlast nextId
  rw [← hus, filled_withoutLiterals] at hread
  exact hread

/-- For every text: its tokens, and the same tokens with the literal taken out of any of the number
and string tokens, are read as the same statements but for node numbers, and with the same faults,
which differ at most in the literals of the tokens that they are at. -/
theorem literals_redundant (chosen : Nat → Bool) (source : String) (nextId nextId' : NodeId) :
    let whole := ofTokens (ofText source) nextId
    let stripped := ofTokens (withoutLiterals chosen (ofText source)) nextId'
    unnumbered stripped.statements = unnumbered whole.statements ∧
      stripped.faults.map (·.diagnostic) = whole.faults.map (·.diagnostic) ∧
      stripped.faults.map (·.relabel withoutLiteral) =
        whole.faults.map (·.relabel withoutLiteral) := by
  intro whole stripped
  have hread := ofTokens_withoutLiterals chosen source nextId'
  obtain ⟨hstatements, hfaults⟩ := ofTokens_anew (ofText source) nextId nextId'
  have hmade : Stmt.MadeOfAll (fun _ => True) stripped.statements :=
    statements_madeOf (fun _ _ => trivial) nextId'
  have hwhole : whole.faults = stripped.faults.map (·.relabel filled) := by
    show (ofTokens (ofText source) nextId).faults = _
    rw [hfaults, hread]
    rfl
  refine ⟨?_, ?_, ?_⟩
  · show unnumbered stripped.statements = unnumbered (ofTokens (ofText source) nextId).statements
    rw [hstatements, hread]
    exact (unnumbered_filled hmade 0).symm
  · rw [hwhole, diagnostics_filled]
  · rw [hwhole, withoutLiterals_filled]

end Program

end LoxLang
