import LoxLang.Proofs.Printing.Writing
import LoxLang.Proofs.Token.Placement

/-!
The lexemes of a text, written with blanks between them.

Whatever stood between the tokens of a text, comments and faults included, may be replaced by runs of
blanks, one run for each place between two tokens and each run as long as it likes.  No blank extends
a token (`Kind.extendedBy_of_isBlank`), so each lexeme is read as the token it came from, and nothing
else is read (`Token.lexemes_spaced`).
-/

namespace LoxLang

namespace Text

/-- Blanks that keep two lexemes apart. -/
structure Gap where
  chars : List Char
  ne_nil : chars ≠ []
  isBlank_of_mem : ∀ c ∈ chars, isBlank c = true

/-- The texts with a gap between each two that follow each other. -/
def spaced (gap : Nat → Gap) : List (List Char) → List Char
  | [] => []
  | [text] => text
  | text :: next :: rest => text ++ ((gap 0).chars ++ spaced (fun i => gap (i + 1)) (next :: rest))

end Text

/-- No token is made another one by a blank behind it. -/
theorem Kind.extendedBy_of_isBlank (k : Kind) {c : Char} (h : Text.isBlank c = true) :
    k.extendedBy c = false := by
  obtain ⟨hstart, hdigit⟩ := not_inWord_of_isBlank h
  have hword : inWord c = false := by
    rw [← Bool.not_eq_true]
    intro hin
    rcases startsWord_or_isDigit hin with hc | hc
    · exact absurd hc (by simp [hstart])
    · exact absurd hc (by simp [hdigit])
  have hne : ∀ d : Char, Text.isBlank d = false → (c == d) = false := by
    intro d hd
    rw [beq_eq_false_iff_ne]
    rintro rfl
    rw [h] at hd
    cases hd
  have hequals := hne '=' (by decide)
  have hslash := hne '/' (by decide)
  have hpoint := hne '.' (by decide)
  cases k <;> simp only [extendedBy, hword, hdigit, hequals, hslash, hpoint, Bool.or_false]

theorem Text.Gap.extendedBy_head (gap : Text.Gap) (k : Kind) (cs : List Char) :
    ∀ c ∈ (gap.chars ++ cs).head?, k.extendedBy c = false := by
  intro c hc
  obtain ⟨d, ds, hd⟩ := List.exists_cons_of_ne_nil gap.ne_nil
  rw [hd, List.cons_append, List.head?_cons, Option.mem_some_iff] at hc
  subst hc
  exact k.extendedBy_of_isBlank (gap.isBlank_of_mem d (hd ▸ List.mem_cons_self))

/-- The lexemes of genuine tokens spell these tokens, on lines of their own. -/
theorem exists_spells_spaced {ts : List Token} (h : ∀ t ∈ ts, t.Genuine) (gap : Nat → Text.Gap)
    (line : Nat) :
    ∃ us, Spells line (Text.spaced gap (ts.map (·.lexeme.toList))) us ∧
      us.map Token.unlined = ts.map Token.unlined := by
  induction ts generalizing gap line with
  | nil => exact ⟨[], .nil line, rfl⟩
  | cons t ts ih =>
    obtain ⟨ht, hts⟩ := List.forall_mem_cons.1 h
    let u : Token := { t with line := line + Text.newlines t.lexeme.toList }
    have hu : u.Genuine := ht.onLine _
    cases ts with
    | nil =>
      exact ⟨[u], .token (List.append_nil _).symm (hu.stands (by simp)) rfl (.nil _), rfl⟩
    | cons next rest =>
      obtain ⟨us, hspells, hsame⟩ := ih hts (fun i => gap (i + 1))
        (u.line + Text.newlines (gap 0).chars)
      refine ⟨u :: us, .token rfl (hu.stands ((gap 0).extendedBy_head _ _)) rfl ?_, ?_⟩
      · exact spells_blanks (gap 0).isBlank_of_mem hspells
      · exact congrArg (t.unlined :: ·) hsame

/-- The lexemes of any text, whatever is wrong with it, with any gaps between them are a text without
fault, whose tokens have the same kinds, lexemes and literals. -/
theorem Token.lexemes_spaced (source : String) (gap : Nat → Text.Gap) :
    let tokens := (ofText source).dropLast
    let text := String.ofList (Text.spaced gap (tokens.map (·.lexeme.toList)))
    errorsIn text = [] ∧ ∃ again line, ofText text = again ++ [eofAt line] ∧
      again.map unlined = tokens.map unlined := by
  intro tokens text
  obtain ⟨again, hspells, hsame⟩ :=
    exists_spells_spaced (fun _ ht => genuine_of_mem_dropLast ht) gap 1
  have htext : text.toList = Text.spaced gap (tokens.map (·.lexeme.toList)) := String.toList_ofList
  rw [← htext] at hspells
  obtain ⟨htokens, herrors⟩ := hspells.ofText
  exact ⟨herrors, again, _, htokens, hsame⟩

end LoxLang
