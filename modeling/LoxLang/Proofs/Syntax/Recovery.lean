import LoxLang.Proofs.Syntax.Keywords
import LoxLang.Proofs.Syntax.Recognition
import LoxLang.Token.Stream

/-!
Where reading goes on behind a statement that it has given up.

A statement is given up at the token that did not fit.  Recovery passes that token without looking
at it, and only from the next one on does it look for a boundary (`resume`).  So when the semicolon
of a `print` is missing and a keyword follows, that keyword is lost: the one fault is reported, but
what is read behind it are the statements from the boundary after the keyword on, which are never
all of those that stand there (`Program.missing_semicolon_hides_next`).
-/

namespace LoxLang

open Grammar Reading Outcome

/-- What is left where reading goes on, when `previous` has just been passed. -/
def resume (previous : Token) : List Token → List Token
  | [] => []
  | t :: ts =>
    if previous.kind = .semicolon || t.kind.isBoundary then t :: ts else resume t ts

theorem resume_suffix (previous : Token) (ts : List Token) : resume previous ts <:+ ts := by
  induction ts generalizing previous with
  | nil => exact List.suffix_refl _
  | cons t ts ih =>
    rw [resume]
    split
    · exact List.suffix_refl _
    · exact (ih t).trans (List.suffix_cons t ts)

namespace Cursor

theorem ahead_skip_eq {previous current : Token} {upcoming : List Token}
    (hc : ∃ t ∈ current :: upcoming, t.kind = .eof) :
    (skip previous current upcoming).ahead = resume previous (beforeEof (current :: upcoming)) := by
  induction upcoming generalizing previous current with
  | nil =>
    obtain ⟨t, ht, hk⟩ := hc
    obtain rfl := List.mem_singleton.1 ht
    rw [skip, if_pos (by simp [hk]), beforeEof_cons_eof hk]
    exact ahead_eq_nil_of_atEnd hk
  | cons t ts ih =>
    by_cases hk : current.kind = .eof
    · rw [skip, if_pos (by simp [hk]), beforeEof_cons_eof hk]
      exact ahead_eq_nil_of_atEnd hk
    · rw [beforeEof_cons hk, resume, skip]
      by_cases hb : (previous.kind = .semicolon || current.kind.isBoundary) = true
      · rw [if_pos (by simpa [hk] using hb), if_pos hb]
        exact ahead_eq_cons hk
      · rw [if_neg (by simpa [hk] using hb), if_neg hb]
        refine ih ?_
        obtain ⟨e, he, hek⟩ := hc
        rcases List.mem_cons.1 he with rfl | he
        · exact absurd hek hk
        · exact ⟨e, he, hek⟩

/-- The token at which a statement is given up is passed, whatever it is. -/
theorem Closed.ahead_synchronize_eq {c : Cursor} {t : Token} {ts : List Token} (hc : c.Closed)
    (ha : c.ahead = t :: ts) : c.synchronize.ahead = resume t ts := by
  obtain ⟨hcurrent, hk⟩ := current_of_ahead ha
  have hnext : beforeEof (c.advance.current :: c.advance.upcoming) = ts := by
    have h := hc.ahead_advance
    rwa [ha, List.tail_cons] at h
  rw [Cursor.synchronize, ahead_skip_eq hc.advance, hc.previous_advance hk, hcurrent, hnext]

end Cursor

/-- The fault of a `print` whose value is followed by `token`. -/
def missingSemicolon (token : Token) : TokenError := .expected token "Expect ';' after value"

theorem Kind.power_of_isBoundary {k : Kind} (h : k.isBoundary = true) : k.power = .none := by
  cases k <;> first | rfl | cases h

namespace Read

variable {r : Reading} {keyword first : Token} {ts us : List Token} {e : Expr}

/-- A `print` with a boundary keyword in the place of its semicolon fails at that keyword. -/
theorem print_unfinished {fits : Nat → Prop} (hk : keyword.kind = .printKw)
    (hfirst : first.kind.isBoundary = true) (h : ExpressionRead fits .assignment ts e) (n : Nat)
    (hr : r.cursor.Closed) (ha : r.cursor.ahead = keyword :: (ts ++ first :: us)) :
    (unguarded n r).Meets (fun _ _ => False)
      (fun e s => e = missingSemicolon first ∧ Reaches fits r s (first :: us)) (TooFew n r 6) := by
  cases n with
  | zero => exact tooFew_zero (by decide)
  | succ n =>
  rw [unguarded, Action.bind_ok (rfl : kind r = _), kind_eq_of_ahead ha, firstKind_cons, hk]
  show (statement n r).Meets _ _ _
  cases n with
  | zero =>
    show TooFew 1 r 6
    unfold TooFew
    omega
  | succ n =>
    have hstop : (firstKind (first :: us)).power.level ≤ Power.none.level :=
      Nat.le_of_eq (congrArg Power.level (Kind.power_of_isBoundary hfirst))
    rw [statement, Action.bind_ok (rfl : kind r = _), kind_eq_of_ahead ha, firstKind_cons, hk]
    refine advance_bind fits hr ha fun s hs => ?_
    refine Action.succeeds_bind (h.stops hs.closed hs.ahead (Nat.le_refl _) hstop) ?_ ?_
    · have hlen := congrArg List.length ha
      unfold TooFew
      simp only [hs.ahead, List.length_append, List.length_cons] at hlen ⊢
      omega
    rintro e' t ⟨ht, -⟩
    obtain ⟨hcurrent, -⟩ := Cursor.current_of_ahead ht.ahead
    have hsemi : t.cursor.kind ≠ .semicolon := by
      rw [kind_eq_of_ahead ht.ahead, firstKind_cons]
      intro hs'
      rw [hs'] at hfirst
      cases hfirst
    rw [Action.meets_bind, expect_eq, if_neg hsemi, hcurrent]
    exact ⟨rfl, hs.trans ht⟩

/-- Such a `print` is given up, and so is the keyword behind it. -/
theorem declaration_unfinished (hk : keyword.kind = .printKw)
    (hfirst : first.kind.isBoundary = true)
    (h : ExpressionRead (· ≤ maxArity) .assignment ts e) (n : Nat) (hr : r.cursor.Closed)
    (ha : r.cursor.ahead = keyword :: (ts ++ first :: us)) :
    (declaration n r).Succeeds
      (fun o s => o = none ∧ s.cursor.Closed ∧ s.cursor.ahead = resume first us ∧
        s.faults = missingSemicolon first :: r.faults)
      (TooFew n r 7) := by
  cases n with
  | zero => exact tooFew_zero (by decide)
  | succ n =>
    rw [declaration]
    refine Action.meets_bind.2 (Action.meets_attempt.2
      ((print_unfinished hk hfirst h n hr ha).mono ?_ ?_ ?_))
    · exact fun _ _ hf => hf.elim
    · rintro err s ⟨rfl, hs⟩
      obtain ⟨new, hn, -, hnone⟩ := hs.faults
      rw [hnone fun _ hk => hk, List.nil_append] at hn
      exact ⟨rfl, hs.closed.synchronize, hs.closed.ahead_synchronize_eq hs.ahead,
        congrArg (missingSemicolon first :: ·) hn⟩
    · unfold TooFew
      omega

/-- What the declarations `ss`, read from `r` to `s`, have to do with the tokens ahead of `r`. -/
structure Rest (r s : Reading) (ss : List Stmt) : Prop where
  faults : r.faults <:+ s.faults
  kept : ∃ kept, kept.Sublist r.cursor.ahead ∧ Declarations (fun _ => True) kept ss
  derived : s.faults = r.faults → Declarations (· ≤ maxArity) r.cursor.ahead ss
  read : ∀ qs, Declarations (· ≤ maxArity) r.cursor.ahead qs →
    s.faults = r.faults ∧ unnumbered ss = unnumbered qs

theorem declarations_rest (n : Nat) (hr : r.cursor.Closed) :
    (declarations n r).Succeeds (fun ss s => Rest r s ss) (TooFew n r 8) := by
  have hany := declarations_meets (fun _ _ => trivial) n hr
  have hfit := declarations_meets (fun _ hk => hk) n hr
  have hread : ∀ qs, Declarations (· ≤ maxArity) r.cursor.ahead qs → _ :=
    fun qs hq => (declarations_read hq).2 n r hr rfl
  cases hd : declarations n r with
  | error e s =>
    rw [hd] at hany
    exact hany
  | exhausted =>
    rw [hd] at hany
    exact hany
  | ok ss s =>
    rw [hd] at hany hfit
    obtain ⟨hend, used, kept, hmoves, hkept⟩ := hany
    obtain ⟨-, used', kept', hmoves', hkept'⟩ := hfit
    have hused := hmoves.ahead
    have hused' := hmoves'.ahead
    rw [hend, List.append_nil] at hused hused'
    refine ⟨hmoves.faults, ⟨kept, ?_, hkept (.inr fun _ => trivial)⟩, ?_, ?_⟩
    · rw [hused]
      exact hmoves.sublist
    · intro hf
      rw [hused', ← hmoves'.clean hf]
      exact hkept' (.inl hf)
    · intro qs hq
      have h := hread qs hq
      rw [hd] at h
      obtain ⟨new, hn, -, hnone⟩ := h.1.faults
      rw [hnone fun _ hk => hk, List.nil_append] at hn
      exact ⟨hn, h.2⟩

theorem declarations_unfinished (hk : keyword.kind = .printKw)
    (hfirst : first.kind.isBoundary = true)
    (h : ExpressionRead (· ≤ maxArity) .assignment ts e) (n : Nat) (hr : r.cursor.Closed)
    (ha : r.cursor.ahead = keyword :: (ts ++ first :: us)) :
    (declarations n r).Succeeds
      (fun ss t => ∃ s : Reading, s.cursor.ahead = resume first us ∧
        s.faults = missingSemicolon first :: r.faults ∧ Rest s t ss)
      (TooFew n r 8) := by
  cases n with
  | zero => exact tooFew_zero (by decide)
  | succ n =>
    have hnil : ¬ r.cursor.atEnd = true := by
      rw [Cursor.atEnd_iff, ha]
      exact List.cons_ne_nil _ _
    rw [declarations, Action.bind_ok (rfl : atEnd r = _), if_neg hnil]
    refine Action.succeeds_bind (declaration_unfinished hk hfirst h n hr ha)
      (by unfold TooFew; omega) ?_
    rintro o s ⟨rfl, hs, has, hf⟩
    refine Action.succeeds_bind (declarations_rest n hs)
      (TooFew.behind ha has ?_ (by decide)) fun ss t ht => ⟨s, has, hf, ht⟩
    have hle := (resume_suffix first us).length_le
    simp only [List.length_append, List.length_cons]
    omega

end Read

namespace Program

variable {tokens following es rest : List Token} {keyword first : Token} {e : Expr}

/-- Behind a `print` without its semicolon, reading goes on at the next boundary after the keyword
that follows. -/
theorem exists_rest (nextId : NodeId) (hkeyword : keyword.kind = .printKw)
    (hfirst : first.kind.isBoundary = true) (he : Expression (· ≤ maxArity) .assignment es e)
    (htokens : beforeEof tokens = keyword :: (es ++ first :: rest)) :
    ∃ r s : Reading, r.cursor.ahead = resume first rest ∧ r.faults = [missingSemicolon first] ∧
      (ofTokens tokens nextId).faults = s.faults.reverse ∧
      Read.Rest r s (ofTokens tokens nextId).statements := by
  obtain ⟨ss, s, hd, hp, -, -⟩ :=
    exists_declarations (fun _ _ => trivial) tokens nextId
  have hahead : (Reading.start tokens nextId).cursor.ahead = keyword :: (es ++ first :: rest) :=
    (Cursor.ahead_ofTokens tokens).trans htokens
  have h := Read.declarations_unfinished hkeyword hfirst (Read.expression_read he)
    (Reading.start tokens nextId).budget (Cursor.closed_ofTokens tokens) hahead
  rw [hd] at h
  obtain ⟨r, ha, hf, hrest⟩ := h
  rw [hp]
  exact ⟨r, s, ha, hf, rfl, hrest⟩

/-- When the semicolon of a `print` is missing and a boundary keyword follows, the first fault is
the missing semicolon, at that keyword, and reading goes on from the next boundary behind it: there
is no other fault exactly when a program starts there, and then that program is read.  The statement
that the keyword starts is lost, so never are all statements read that stand behind the `print`. -/
theorem missing_semicolon_hides_next (nextId k : NodeId) (hkeyword : keyword.kind = .printKw)
    (he : Expression (· ≤ maxArity) .assignment es e)
    (hfollowing : beforeEof following = first :: rest) (hfirst : first.kind.isBoundary = true)
    (hclean : (ofTokens following k).faults = [])
    (htokens : beforeEof tokens = keyword :: (es ++ first :: rest)) :
    (∃ later, (ofTokens tokens nextId).faults = missingSemicolon first :: later ∧
      (later = [] ↔ ∃ ss, Declarations (· ≤ maxArity) (resume first rest) ss) ∧
      ∀ ss, Declarations (· ≤ maxArity) (resume first rest) ss →
        unnumbered (ofTokens tokens nextId).statements = unnumbered ss) ∧
    (∃ kept, kept.Sublist (resume first rest) ∧
      Declarations (fun _ => True) kept (ofTokens tokens nextId).statements) ∧
    unnumbered (ofTokens tokens nextId).statements ≠
      unnumbered (ofTokens following k).statements := by
  obtain ⟨r, s, ha, hf, hp, hsuffix, hkept, hderived, hread⟩ :=
    exists_rest nextId hkeyword hfirst he htokens
  rw [ha] at hkept hderived hread
  rw [hf] at hsuffix hderived hread
  obtain ⟨new, hnew⟩ := hsuffix
  refine ⟨⟨new.reverse, ?_, ⟨?_, ?_⟩, fun ss hs => (hread ss hs).2⟩, hkept, ?_⟩
  · rw [hp, ← hnew, List.reverse_append]
    rfl
  · intro hnil
    rw [List.reverse_eq_nil_iff.1 hnil, List.nil_append] at hnew
    exact ⟨_, hderived hnew.symm⟩
  · rintro ⟨ss, hs⟩
    rw [(hread ss hs).1] at hnew
    rw [List.append_left_eq_self.1 hnew]
    rfl
  · -- the keyword at which reading failed starts a node of the second program, but none of the first
    intro heq
    obtain ⟨kept, hsub, hk⟩ := hkept
    have hwhole := derived_of_faults_eq_nil hclean
    rw [hfollowing] at hwhole
    have hsame : Stmt.keywordsAll (ofTokens tokens nextId).statements =
        Stmt.keywordsAll (ofTokens following k).statements := by
      have hcount := congrArg Stmt.keywordsAll heq
      rwa [Stmt.keywordsAll_relabel, Stmt.keywordsAll_relabel] at hcount
    have hfew : boundaries kept ≤ boundaries rest :=
      (hsub.trans (resume_suffix first rest).sublist).countP_le
    rw [← declarations_keywords hk, ← declarations_keywords hwhole,
      boundaries_keyword _ rfl hfirst] at hsame
    omega

/-- `print true` in front of `print false; print nil;`. -/
theorem missing_semicolon_hides_print :
    let word (kind : Kind) (lexeme : String) : Token := ⟨kind, lexeme, none, 1⟩
    let rest := [word .falseKw "false", word .semicolon ";", word .printKw "print",
      word .nilKw "nil", word .semicolon ";"]
    let following := word .printKw "print" :: rest
    let tokens := word .printKw "print" :: word .trueKw "true" :: following
    (ofTokens following 0).faults = [] ∧
      (∃ later, (ofTokens tokens 0).faults = missingSemicolon (word .printKw "print") :: later) ∧
      unnumbered (ofTokens tokens 0).statements ≠ unnumbered (ofTokens following 0).statements := by
  intro word rest following tokens
  have hfollowing : (ofTokens following 0).faults = [] := rfl
  have hvalue : Expression (· ≤ maxArity) .assignment [word .trueKw "true"]
      (.constant (.bool true)) :=
    Expression.loosen (.true rfl) (by decide)
  have htokens : beforeEof tokens =
      word .printKw "print" :: ([word .trueKw "true"] ++ word .printKw "print" :: rest) := rfl
  have h := missing_semicolon_hides_next 0 0 rfl hvalue rfl rfl hfollowing htokens
  obtain ⟨⟨later, hlater, -⟩, -, hne⟩ := h
  exact ⟨hfollowing, ⟨later, hlater⟩, hne⟩

/-- The statement behind the missing semicolon is not read, though it starts with a keyword. -/
theorem statement_behind_missing_semicolon_lost :
    let following := Token.ofText "print false; print nil;"
    let tokens := Token.ofText "print true print false; print nil;"
    tokens.map (·.kind) = .printKw :: .trueKw :: following.map (·.kind) ∧
      (ofTokens following 0).faults = [] ∧
      (ofTokens tokens 0).faults.map (·.diagnostic) =
        [⟨.unexpectedToken "print" "Expect ';' after value", 1, .lexeme "print"⟩] ∧
      (ofTokens following 0).statements.length = 2 ∧
      (ofTokens tokens 0).statements.length = 1 := by
  decide +kernel

end Program

end LoxLang
