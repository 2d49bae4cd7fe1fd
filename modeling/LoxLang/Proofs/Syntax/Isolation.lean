import LoxLang.Proofs.Syntax.Appending
import LoxLang.Proofs.Syntax.Recovery

/-!
A broken statement disturbs no neighbour.

A simple statement is broken if what stands before its semicolon is wrong in some way.  Expressions do
not pass the semicolon, as long as no function begins in them (`Read.staying`), so the statement is
given up at the semicolon or before it, and recovery finds nothing to stop at before it has passed the
semicolon.  Behind it reading goes on as if nothing had been there; and what happened up to there
happens in the same way when the broken statement stands alone (`Program.ofTokens_isolated`).
-/

namespace LoxLang

open Grammar Reading Outcome

/-- Neither a semicolon nor a brace nor a closing token nor the keyword of a statement. -/
def Kind.isPlain : Kind → Bool
  | .semicolon | .openCurly | .closeCurly | .eof => false
  | k => !k.isBoundary

theorem Kind.of_isPlain {k : Kind} (h : k.isPlain = true) :
    k ≠ .semicolon ∧ k ≠ .eof ∧ k.isBoundary = false ∧ k.startsDeclaration = false ∧
      k.startsStatement = false := by
  revert h
  cases k <;> decide

/-- What may stand before the semicolon of a simple statement. -/
inductive SimpleTokens : List Token → Prop
  | plain {ts : List Token} (h : ∀ t ∈ ts, t.kind.isPlain = true) : SimpleTokens ts
  | keyword {t : Token} {ts : List Token}
    (ht : t.kind = .printKw ∨ t.kind = .returnKw ∨ t.kind = .varKw)
    (h : ∀ t ∈ ts, t.kind.isPlain = true) : SimpleTokens (t :: ts)

theorem SimpleTokens.kind_ne_eof {ts : List Token} (h : SimpleTokens ts) :
    ∀ t ∈ ts, t.kind ≠ .eof := by
  cases h with
  | plain h => exact fun t ht => (Kind.of_isPlain (h t ht)).2.1
  | keyword hfirst h =>
    refine List.forall_mem_cons.2 ⟨?_, fun t ht => (Kind.of_isPlain (h t ht)).2.1⟩
    rcases hfirst with hk | hk | hk <;> rw [hk] <;> decide

/-! ## Recovery -/

theorem resume_semicolon {previous : Token} (h : previous.kind = .semicolon) (ts : List Token) :
    resume previous ts = ts := by
  cases ts with
  | nil => rfl
  | cons t ts =>
    rw [resume, if_pos]
    rw [decide_eq_true h, Bool.true_or]

/-- Behind a plain token, recovery passes all other plain ones, and the semicolon behind them. -/
theorem resume_plain {semicolon previous : Token} {w : List Token} (us : List Token)
    (hs : semicolon.kind = .semicolon) (hprevious : previous.kind.isPlain = true)
    (hw : ∀ t ∈ w, t.kind.isPlain = true) : resume previous (w ++ semicolon :: us) = us := by
  induction w generalizing previous with
  | nil =>
    rw [List.nil_append, resume, if_neg]
    · exact resume_semicolon hs us
    · rw [decide_eq_false (Kind.of_isPlain hprevious).1, hs]
      decide
  | cons t w ih =>
    rw [List.cons_append, resume, if_neg]
    · exact ih (hw t List.mem_cons_self) fun a ha => hw a (List.mem_cons_of_mem t ha)
    · rw [decide_eq_false (Kind.of_isPlain hprevious).1,
        (Kind.of_isPlain (hw t List.mem_cons_self)).2.2.1]
      decide

namespace Read

/-! ## Up to the semicolon -/

section

variable (semicolon : Token) (us : List Token)

/-- Some plain tokens are ahead, and then the semicolon. -/
structure Before (r : Reading) : Prop where
  closed : r.cursor.Closed
  ahead : ∃ w, r.cursor.ahead = w ++ semicolon :: us ∧ ∀ t ∈ w, t.kind.isPlain = true

/-- From before the semicolon it leads to before the semicolon. -/
def Stays {α : Type} (x : Read α) : Prop :=
  ∀ r, Before semicolon us r →
    (x r).Meets (fun _ s => Before semicolon us s) (fun _ s => Before semicolon us s) True

/-- The same, if a token of kind `k` is next. -/
def StaysAt (k : Kind) {α : Type} (x : Read α) : Prop :=
  ∀ r, Before semicolon us r → r.cursor.kind = k →
    (x r).Meets (fun _ s => Before semicolon us s) (fun _ s => Before semicolon us s) True

/-- From before the semicolon, it does not fail behind the semicolon. -/
def Ends {α : Type} (x : Read α) : Prop :=
  ∀ r, Before semicolon us r →
    (x r).Meets (fun _ _ => True) (fun _ s => Before semicolon us s) True

end

variable {semicolon : Token} {us : List Token} {α β : Type} {k : Kind}

theorem Before.kind {r : Reading} (h : Before semicolon us r) (hs : semicolon.kind = .semicolon) :
    r.cursor.kind.isPlain = true ∨ r.cursor.kind = .semicolon := by
  obtain ⟨w, ha, hw⟩ := h.ahead
  rw [kind_eq_of_ahead ha]
  cases w with
  | nil => exact .inr hs
  | cons t w => exact .inl (hw t List.mem_cons_self)

theorem Before.advance {r : Reading} (h : Before semicolon us r) (hs : semicolon.kind = .semicolon)
    (hk : r.cursor.kind ≠ .semicolon) : Before semicolon us (behindCurrent r) := by
  obtain ⟨w, ha, hw⟩ := h.ahead
  have hnext : r.cursor.advance.ahead = (w ++ semicolon :: us).tail := ha ▸ h.closed.ahead_advance
  cases w with
  | nil => exact absurd ((kind_eq_of_ahead ha).trans hs) hk
  | cons t w =>
    exact ⟨h.closed.advance, w, hnext, fun a ha => hw a (List.mem_cons_of_mem t ha)⟩

/-- Giving up before the semicolon leads behind it. -/
theorem Before.synchronize {r : Reading} (h : Before semicolon us r)
    (hs : semicolon.kind = .semicolon) : r.cursor.synchronize.ahead = us := by
  obtain ⟨w, ha, hw⟩ := h.ahead
  cases w with
  | nil => rw [h.closed.ahead_synchronize_eq ha, resume_semicolon hs]
  | cons t w =>
    rw [h.closed.ahead_synchronize_eq ha]
    exact resume_plain us hs (hw t List.mem_cons_self) fun a ha => hw a (List.mem_cons_of_mem t ha)

/-! ## Computations one after the other -/

theorem stays_pure (a : α) : Stays semicolon us (Pure.pure a) := fun _ h => h

theorem stays_report (e : TokenError) : Stays semicolon us (report e) :=
  fun _ h => ⟨h.closed, h.ahead⟩

theorem stays_freshId : Stays semicolon us freshId := fun _ h => ⟨h.closed, h.ahead⟩

theorem stays_failExpected (expectation : String) :
    Stays (α := α) semicolon us (expected expectation >>= fun e => Action.fail e) := fun _ h => h

theorem Stays.bind {x : Read α} {F : α → Read β} (h : Stays semicolon us x)
    (hk : ∀ a, Stays semicolon us (F a)) : Stays semicolon us (x >>= F) :=
  fun r hr => Action.meets_bind.2 ((h r hr).mono (fun a s hs => hk a s hs) (fun _ _ => id) id)

theorem Stays.at {x : Read α} (h : Stays semicolon us x) : StaysAt semicolon us k x :=
  fun r hr _ => h r hr

theorem Stays.ends_bind {x : Read α} {F : α → Read β} (h : Stays semicolon us x)
    (hk : ∀ a, Ends semicolon us (F a)) : Ends semicolon us (x >>= F) :=
  fun r hr => Action.meets_bind.2 ((h r hr).mono (fun a s hs => hk a s hs) (fun _ _ => id) id)

theorem stays_kind {F : Kind → Read α} (h : ∀ k, StaysAt semicolon us k (F k)) :
    Stays semicolon us (kind >>= F) := fun r hr => h r.cursor.kind r hr rfl

/-- The semicolon ends a statement, and is all that is still to come. -/
theorem ends_expect {expectation : String} {a : α} :
    Ends semicolon us (expect .semicolon expectation >>= fun _ => Pure.pure a) := by
  intro r hr
  rw [Action.meets_bind, expect_eq]
  split
  · exact trivial
  · exact hr

section

variable (hs : semicolon.kind = .semicolon)

include hs

theorem staysAt_of_not_plain {x : Read α} (hk : k.isPlain = false) (hne : k ≠ .semicolon) :
    StaysAt semicolon us k x := by
  rintro r hr rfl
  rcases hr.kind hs with hplain | hsemicolon
  · rw [hk] at hplain
    cases hplain
  · exact absurd hsemicolon hne

theorem staysAt_advance {F : Token → Read α} (hk : k ≠ .semicolon)
    (h : ∀ t, Stays semicolon us (F t)) : StaysAt semicolon us k (advance >>= F) := by
  rintro r hr rfl
  exact Action.meets_bind.2 (h _ _ (hr.advance hs hk))

theorem stays_expect (hk : k ≠ .semicolon) (expectation : String) :
    Stays semicolon us (expect k expectation) := by
  intro r hr
  rw [expect_eq]
  split
  · rename_i heq
    exact hr.advance hs (heq ▸ hk)
  · exact hr

theorem Stays.behind? {x : Read α} (hk : k ≠ .semicolon) (h : Stays semicolon us x) :
    Stays semicolon us (behind? k x) := by
  intro r hr
  rw [Read.behind?, Action.bind_ok (rfl : check k r = _)]
  by_cases heq : r.cursor.kind = k
  · rw [if_pos (decide_eq_true heq)]
    exact staysAt_advance hs hk (fun _ => h.bind fun a => stays_pure _) r hr heq
  · rw [if_neg (by simpa using heq)]
    exact hr

omit hs in
theorem Stays.before? {x : Read α} (h : Stays semicolon us x) (k : Kind) :
    Stays semicolon us (before? k x) := by
  intro r hr
  rw [Read.before?, Action.bind_ok (rfl : check k r = _)]
  split
  · exact hr
  · exact (h.bind fun a => stays_pure _) r hr

/-! ## Expressions -/

omit hs in
theorem stays_reportExcess (count : Nat) (cause : Cause) :
    Stays semicolon us (reportExcess count cause) := by
  intro r hr
  rw [reportExcess_eq]
  split
  · exact ⟨hr.closed, hr.ahead⟩
  · exact hr

end

/-- Expressions in `n` nested steps. -/
structure Staying (semicolon : Token) (us : List Token) (n : Nat) : Prop where
  expr : ∀ power, Stays semicolon us (expr n power)
  continuations : ∀ power left, Stays semicolon us (continuations n power left)
  operand : Stays semicolon us (operand n)
  continuation : ∀ k left, k ≠ .semicolon → StaysAt semicolon us k (continuation n k left)
  arguments : ∀ count, Stays semicolon us (arguments n count)

section

variable {n : Nat} (hs : semicolon.kind = .semicolon) (ih : Staying semicolon us n)

include hs ih

omit hs in
theorem Staying.continuations_succ (power : Power) (left : Expr) :
    Stays semicolon us (Read.continuations (n + 1) power left) := by
  refine stays_kind fun k => ?_
  split
  · rename_i hbound
    have hk : k ≠ .semicolon := by
      rintro rfl
      exact absurd hbound (Nat.not_lt_zero _)
    intro r hr heq
    refine Action.meets_bind.2 ((ih.continuation k left hk r hr heq).mono ?_ (fun _ _ => id) id)
    exact fun left s hs => ih.continuations power left s hs
  · exact (stays_pure left).at

theorem Staying.operand_succ : Stays semicolon us (Read.operand (n + 1)) := by
  refine stays_kind fun k => ?_
  cases k with
  | number | string | trueKw | falseKw | nilKw =>
    exact staysAt_advance hs (by decide) fun _ => stays_pure _
  | identifier =>
    exact staysAt_advance hs (by decide) fun _ => stays_freshId.bind fun _ => stays_pure _
  | not | dash =>
    exact staysAt_advance hs (by decide) fun _ => (ih.expr .unary).bind fun _ => stays_pure _
  | openParen =>
    refine staysAt_advance hs (by decide) fun _ => (ih.expr .none).bind fun inner => ?_
    exact (stays_expect hs (by decide) _).bind fun _ => stays_pure _
  | funKw => exact staysAt_of_not_plain hs rfl (by decide)
  | _ => exact (stays_failExpected _).at

theorem Staying.continuation_succ (k : Kind) (left : Expr) (hk : k ≠ .semicolon) :
    StaysAt semicolon us k (Read.continuation (n + 1) k left) := by
  have hoperation : ∀ f : Token → Expr → Expr, StaysAt semicolon us k
      (advance >>= fun operator => Read.expr n k.power >>= fun right =>
        Pure.pure (f operator right)) := fun f =>
    staysAt_advance hs hk fun operator => (ih.expr k.power).bind fun right => stays_pure _
  cases k with
  | assignment =>
    refine staysAt_advance hs hk fun operator => (ih.expr .none).bind fun value => ?_
    cases left with
    | read id name => exact stays_freshId.bind fun id => stays_pure _
    | _ => exact (stays_report _).bind fun _ => stays_pure _
  | openParen =>
    refine staysAt_advance hs hk fun _ => ((ih.arguments 0).before? .closeParen).bind fun _ => ?_
    exact (stays_expect hs (by decide) _).bind fun paren => stays_pure _
  | orKw => exact hoperation (.logical left)
  | andKw => exact hoperation (.logical left)
  | _ => exact hoperation (.binary left)

theorem Staying.arguments_succ (count : Nat) :
    Stays semicolon us (Read.arguments (n + 1) count) := by
  refine (stays_reportExcess count _).bind fun _ => (ih.expr .none).bind fun value => ?_
  exact ((ih.arguments (count + 1)).behind? hs (by decide)).bind fun rest => stays_pure _

end

/-- Reading an expression does not pass the semicolon. -/
theorem staying (hs : semicolon.kind = .semicolon) (us : List Token) (n : Nat) :
    Staying semicolon us n := by
  induction n with
  | zero =>
    exact ⟨fun _ _ _ => trivial, fun _ _ _ _ => trivial, fun _ _ => trivial,
      fun _ _ _ _ _ _ => trivial, fun _ _ _ => trivial⟩
  | succ n ih =>
    exact ⟨fun power => ih.operand.bind fun left => ih.continuations power left,
      ih.continuations_succ, ih.operand_succ hs, ih.continuation_succ hs, ih.arguments_succ hs⟩

/-! ## Statements -/

section

variable (hs : semicolon.kind = .semicolon)

include hs

theorem ends_expressionStatement (n : Nat) : Ends semicolon us (expressionStatement n) := by
  cases n with
  | zero => exact fun _ _ => trivial
  | succ n => exact ((staying hs us n).expr .none).ends_bind fun _ => ends_expect

theorem ends_unguarded (n : Nat) : Ends semicolon us (unguarded n) := by
  intro r hr
  have hkinds : r.cursor.kind.startsDeclaration = false ∧ r.cursor.kind.startsStatement = false := by
    rcases hr.kind hs with hk | hk
    · exact (Kind.of_isPlain hk).2.2.2
    · rw [hk]
      exact ⟨rfl, rfl⟩
  match n with
  | 0 => exact trivial
  | 1 =>
    rw [unguarded_eq_statement 0 hkinds.1]
    exact trivial
  | n + 2 =>
    rw [unguarded_eq_statement (n + 1) hkinds.1, statement_eq_expressionStatement n hkinds.2]
    exact ends_expressionStatement hs n r hr

/-- A simple statement is not given up behind its semicolon. -/
theorem unguarded_simple {ts : List Token} (hts : SimpleTokens ts) (n : Nat) {r : Reading}
    (hr : r.cursor.Closed) (ha : r.cursor.ahead = ts ++ semicolon :: us) :
    (unguarded n r).Meets (fun _ _ => True) (fun _ s => Before semicolon us s) True := by
  cases hts with
  | plain h => exact ends_unguarded hs n r ⟨hr, _, ha, h⟩
  | @keyword t ts ht h =>
    have hbehind : Before semicolon us (behindCurrent r) := by
      refine ⟨hr.advance, ts, ?_, h⟩
      rw [behindCurrent, hr.ahead_advance, ha]
      rfl
    have hadvance : advance r = .ok r.cursor.advance.previous (behindCurrent r) := rfl
    have hkind : r.cursor.kind = t.kind := kind_eq_of_ahead ha
    match n with
    | 0 => exact trivial
    | 1 =>
      rw [unguarded, Action.bind_ok (rfl : kind r = _), hkind]
      rcases ht with hk | hk | hk <;> rw [hk] <;> exact trivial
    | n + 2 =>
      have hexpr := (staying hs us n).expr .none
      rw [unguarded, Action.bind_ok (rfl : kind r = _), hkind]
      rcases ht with hk | hk | hk
      · rw [hk]
        show (statement (n + 1) r).Meets _ _ _
        rw [statement, Action.bind_ok (rfl : kind r = _), hkind, hk]
        exact Action.meets_bind.2 ((hexpr.ends_bind fun _ => ends_expect) _ hbehind)
      · rw [hk]
        show (statement (n + 1) r).Meets _ _ _
        rw [statement, Action.bind_ok (rfl : kind r = _), hkind, hk]
        refine Action.meets_bind.2 ?_
        exact ((hexpr.before? .semicolon).ends_bind fun _ => ends_expect) _ hbehind
      · rw [hk]
        show (varDeclaration (n + 1) r).Meets _ _ _
        rw [varDeclaration]
        refine Action.meets_bind.2 ?_
        refine ((stays_expect hs (by decide) _).ends_bind fun name => ?_) _ hbehind
        exact (hexpr.behind? hs (by decide)).ends_bind fun _ => ends_expect

end

/-! ## The broken statement -/

theorem declaration_of_ok {n : Nat} {d : Stmt} {r s : Reading} (h : unguarded n r = .ok d s) :
    declaration (n + 1) r = .ok (some d) s := by
  rw [declaration, Action.bind_apply, Action.attempt, h]
  rfl

theorem declaration_of_error {n : Nat} {e : TokenError} {r s : Reading}
    (h : unguarded n r = .error e s) :
    declaration (n + 1) r =
      .ok none { s with cursor := s.cursor.synchronize, faults := e :: s.faults } := by
  rw [declaration, Action.bind_apply, Action.attempt, h]
  rfl

theorem remaining_of_ahead {ts us : List Token} {t : Token} {r : Reading} (hr : r.cursor.Closed)
    (ha : r.cursor.ahead = ts ++ t :: us) (hts : ∀ t ∈ ts, t.kind ≠ .eof) :
    ∃ rest, r.cursor.remaining = ts ++ t :: rest ∧ ∃ e ∈ t :: rest, e.kind = .eof := by
  have hsplit : r.cursor.remaining =
      ts ++ t :: (us ++ r.cursor.remaining.dropWhile (·.kind ≠ .eof)) := by
    have hall : r.cursor.remaining = r.cursor.remaining.takeWhile (·.kind ≠ .eof) ++
        r.cursor.remaining.dropWhile (·.kind ≠ .eof) := List.takeWhile_append_dropWhile.symm
    have htake : r.cursor.remaining.takeWhile (·.kind ≠ .eof) = ts ++ t :: us := ha
    rwa [htake, List.append_assoc, List.cons_append] at hall
  refine ⟨_, hsplit, ?_⟩
  obtain ⟨e, he, hk⟩ := hr
  have hmem : e ∈ r.cursor.remaining := he
  rw [hsplit] at hmem
  rcases List.mem_append.1 hmem with hmem | hmem
  · exact absurd hk (hts e hmem)
  · exact ⟨e, hmem, hk⟩

section

variable (hs : semicolon.kind = .semicolon) {broken : List Token} (hbroken : SimpleTokens broken)

include hs hbroken

theorem beforeEof_alone : beforeEof (broken ++ [semicolon]) = broken ++ [semicolon] := by
  rw [beforeEof_append hbroken.kind_ne_eof, beforeEof_cons (by rw [hs]; decide)]
  rfl

theorem ahead_alone (l : NodeId) :
    (Reading.start (broken ++ [semicolon]) l).cursor.ahead = broken ++ [semicolon] :=
  (Cursor.ahead_ofTokens _).trans (beforeEof_alone hs hbroken)

/-- A statement that comes to nothing by itself has been given up, and its faults are the one for
which it has, and those before. -/
theorem unguarded_alone {l : NodeId}
    (hnone : (Program.ofTokens (broken ++ [semicolon]) l).statements = []) :
    ∃ e s, unguarded (16 * (broken.length + 1) + 6) (.start (broken ++ [semicolon]) l) =
        .error e s ∧
      (Program.ofTokens (broken ++ [semicolon]) l).faults = (e :: s.faults).reverse := by
  have hclosed : (Reading.start (broken ++ [semicolon]) l).cursor.Closed := Cursor.closed_ofTokens _
  have hahead := ahead_alone hs hbroken l
  have hne : (Reading.start (broken ++ [semicolon]) l).cursor.ahead ≠ [] := by
    rw [hahead]
    exact List.append_ne_nil_of_right_ne_nil _ (List.cons_ne_nil _ _)
  have hlength : (broken ++ [semicolon]).length = broken.length + 1 := by
    rw [List.length_append, List.length_singleton]
  obtain ⟨ss, u, hsteps, hprogram⟩ := Program.ofTokens_terminates (broken ++ [semicolon]) l
  have hread := hsteps (16 * (broken.length + 1) + 8)
    (Nat.le_of_eq (by rw [beforeEof_alone hs hbroken, hlength]))
  have hbefore := unguarded_simple hs hbroken (16 * (broken.length + 1) + 6) hclosed hahead
  cases hu : unguarded (16 * (broken.length + 1) + 6) (.start (broken ++ [semicolon]) l) with
  | exhausted =>
    refine absurd hu (((@reading_meets (fun _ => True) (fun _ _ => trivial) _).unguarded _
      hclosed).ne_exhausted ?_)
    unfold TooFew
    rw [hahead, hlength]
    exact Nat.lt_irrefl _
  | ok d t =>
    -- then there would be a statement
    rw [declarations_of_declaration (Nat.le_refl _) hne (declaration_of_ok hu)] at hread
    obtain ⟨qs, v, -, hss⟩ := Action.exists_of_bind_eq_ok hread
    rw [hprogram] at hnone
    cases hss
    cases hnone
  | error e t =>
    rw [hu] at hbefore
    refine ⟨e, t, rfl, ?_⟩
    have hend := declarations_nil (n := 16 * (broken.length + 1) + 7) (Nat.succ_pos _)
      (r := { t with cursor := t.cursor.synchronize, faults := e :: t.faults })
      (Before.synchronize hbefore hs)
    rw [declarations_of_declaration (Nat.le_refl _) hne (declaration_of_error hu),
      Action.bind_ok hend] at hread
    rw [hprogram]
    cases hread
    rfl

/-- Where it stands in front of other tokens it is given up in the same way, with the same faults. -/
theorem unguarded_in_place {m : Nat} (hm : 16 * (broken.length + 1) + 6 ≤ m) {q : Reading}
    (hq : q.cursor.Closed) (ha : q.cursor.ahead = broken ++ semicolon :: us)
    (hfaults : q.faults = []) {e : TokenError} {s : Reading}
    (halone : unguarded (16 * (broken.length + 1) + 6)
      (.start (broken ++ [semicolon]) q.nextId) = .error e s) :
    ∃ t, unguarded m q = .error e t ∧ Before semicolon us t ∧ t.faults = s.faults := by
  have hclosed : (Reading.start (broken ++ [semicolon]) q.nextId).cursor.Closed :=
    Cursor.closed_ofTokens _
  have hahead := ahead_alone hs hbroken q.nextId
  obtain ⟨rest, hrest, hend⟩ := remaining_of_ahead hclosed hahead hbroken.kind_ne_eof
  obtain ⟨rest', hrest', hend'⟩ := remaining_of_ahead hq ha hbroken.kind_ne_eof
  have hp : Cursor.Parting semicolon rest rest' := ⟨hend, hend', by rw [hs]; decide⟩
  have halike : (Reading.start (broken ++ [semicolon]) q.nextId).Alike semicolon rest rest' q := by
    refine ⟨⟨⟨broken, hrest, hrest'⟩, fun hk => ?_⟩, hfaults.symm, rfl⟩
    have hnil := Cursor.ahead_eq_nil_of_atEnd hk
    rw [hahead] at hnil
    exact absurd hnil (List.append_ne_nil_of_right_ne_nil _ (List.cons_ne_nil _ _))
  have hbefore := unguarded_simple hs hbroken (16 * (broken.length + 1) + 6) hclosed hahead
  have honward := (composing hm).unguarded.onward (.start (broken ++ [semicolon]) q.nextId)
  have hboth := (composing hm).unguarded.same hp halike
  rw [halone] at hbefore honward hboth
  -- the semicolon has not been passed
  have hwithin : rest.length < s.cursor.remaining.length := by
    obtain ⟨passed, hpassed, hpassed'⟩ := honward.ahead
    obtain ⟨w, hw, -⟩ := hbefore.ahead
    rw [hahead, hw] at hpassed'
    rw [hrest] at hpassed
    have hlen := congrArg List.length hpassed
    have hlen' := congrArg List.length hpassed'
    simp only [List.length_append, List.length_cons, List.length_nil] at hlen hlen'
    omega
  rcases hboth hwithin with hshort | hagrees
  · cases hshort
  · obtain ⟨t, ht, halike'⟩ := hagrees.error
    have hbefore' := unguarded_simple hs hbroken m hq ha
    rw [ht] at hbefore'
    exact ⟨t, ht, hbefore', halike'.faults.symm⟩

omit hs hbroken in
/-- Derived statements are read without a fault. -/
theorem declarations_quiet {ss : List Stmt} (hss : Declarations (· ≤ maxArity) us ss) {n : Nat}
    {r : Reading} (hr : r.cursor.Closed) (ha : r.cursor.ahead = us) (hn : ¬TooFew n r 8) :
    ∃ qs s, declarations n r = .ok qs s ∧ unnumbered qs = unnumbered ss ∧ s.faults = r.faults := by
  have hread := (declarations_read hss).2 n r hr ha
  cases hd : declarations n r with
  | error e s =>
    rw [hd] at hread
    exact hread.elim
  | exhausted =>
    rw [hd] at hread
    exact absurd hread hn
  | ok qs s =>
    rw [hd] at hread
    obtain ⟨hs, hqs⟩ := hread
    obtain ⟨new, hnew, -, hnone⟩ := hs.faults
    refine ⟨qs, s, rfl, hqs, ?_⟩
    rw [hnew, hnone fun _ hk => hk]
    rfl

/-- In front of statements without faults, it does the same, and then these are read. -/
theorem declarations_broken {ss : List Stmt} (hss : Declarations (· ≤ maxArity) us ss) {m : Nat}
    {q : Reading} (hq : q.cursor.Closed) (ha : q.cursor.ahead = broken ++ semicolon :: us)
    (hfaults : q.faults = []) (hm : ¬TooFew m q 8)
    (hnone : (Program.ofTokens (broken ++ [semicolon]) q.nextId).statements = []) :
    ∃ qs t, declarations m q = .ok qs t ∧ unnumbered qs = unnumbered ss ∧
      t.faults.reverse = (Program.ofTokens (broken ++ [semicolon]) q.nextId).faults := by
  obtain ⟨e, s, halone, hreported⟩ := unguarded_alone hs hbroken hnone
  unfold TooFew at hm
  rw [ha, List.length_append, List.length_cons] at hm
  obtain ⟨m, rfl⟩ : ∃ k, m = k + 2 := ⟨m - 2, by omega⟩
  obtain ⟨t, ht, hbefore, hsame⟩ : ∃ t, unguarded m q = .error e t ∧ Before semicolon us t ∧
      t.faults = s.faults := unguarded_in_place hs hbroken (by omega) hq ha hfaults halone
  have hbehind := hbefore.synchronize hs
  have hsteps :
      ¬TooFew (m + 1) { t with cursor := t.cursor.synchronize, faults := e :: t.faults } 8 := by
    unfold TooFew
    rw [hbehind]
    omega
  obtain ⟨qs, u, hu, hqs, hquiet⟩ :=
    declarations_quiet hss hbefore.closed.synchronize hbehind hsteps
  have hne : q.cursor.ahead ≠ [] := by
    rw [ha]
    exact List.append_ne_nil_of_right_ne_nil _ (List.cons_ne_nil _ _)
  refine ⟨qs, u, ?_, hqs, ?_⟩
  · rw [declarations_of_declaration (Nat.le_refl _) hne (declaration_of_error ht),
      Action.bind_ok hu]
    rfl
  · rw [hquiet, hreported, hsame]

end

end Read

namespace Program

/-- Between two programs without faults, a simple statement that comes to nothing by itself leaves
their statements as they are, and its faults are those that it has by itself. -/
theorem ofTokens_isolated {before broken after : List Token} {semicolon : Token}
    {k l m : NodeId} (n : NodeId) (hbefore : (ofTokens before k).faults = [])
    (hafter : (ofTokens after m).faults = []) (hs : semicolon.kind = .semicolon)
    (hbroken : SimpleTokens broken) (helse : firstKind broken ≠ .elseKw)
    (hnone : (ofTokens (broken ++ [semicolon]) l).statements = []) :
    unnumbered (ofTokens (beforeEof before ++ (broken ++ semicolon :: after)) n).statements =
        unnumbered (ofTokens before k).statements ++ unnumbered (ofTokens after m).statements ∧
      (ofTokens (beforeEof before ++ (broken ++ semicolon :: after)) n).faults =
        (ofTokens (broken ++ [semicolon]) l).faults := by
  have hfirst : firstKind (broken ++ semicolon :: after) ≠ .elseKw := by
    cases broken with
    | nil =>
      rw [List.nil_append, firstKind_cons, hs]
      decide
    | cons t ts => exact helse
  obtain ⟨steps, q, ss, honward, hahead, hfaults, hsteps, hss, hread⟩ :=
    ofTokens_behind hbefore hfirst n
  rw [beforeEof_append hbroken.kind_ne_eof, beforeEof_cons (by rw [hs]; decide)] at hahead
  obtain ⟨hsame, hsame'⟩ := ofTokens_anew (broken ++ [semicolon]) q.nextId l
  have hnone' : (ofTokens (broken ++ [semicolon]) q.nextId).statements = [] := by
    rw [hnone] at hsame
    exact List.map_eq_nil_iff.1 ((Stmt.relabelAll_eq_map _ _ _).symm.trans hsame)
  obtain ⟨qs, t, ht, hqs, hreported⟩ := Read.declarations_broken hs hbroken
    (derived_of_faults_eq_nil hafter) (honward.closed (Cursor.closed_ofTokens _)) hahead hfaults
    hsteps hnone'
  rw [hread qs t ht]
  refine ⟨?_, hreported.trans hsame'⟩
  show unnumbered (ss ++ qs) = _
  rw [unnumbered, Stmt.relabelAll_append]
  exact congrArg₂ (· ++ ·) hss hqs

/-- `print true = false);` between `print true;` and `print nil;`: the assignment is a fault, and the
bracket is another one. -/
theorem ofTokens_isolated_print :
    let word (kind : Kind) (lexeme : String) : Token := ⟨kind, lexeme, none, 1⟩
    let semicolon := word .semicolon ";"
    let before := [word .printKw "print", word .trueKw "true", semicolon, .eofAt 1]
    let broken := [word .printKw "print", word .trueKw "true", word .assignment "=",
      word .falseKw "false", word .closeParen ")"]
    let after := [word .printKw "print", word .nilKw "nil", semicolon]
    (ofTokens before 0).faults = [] ∧ (ofTokens after 0).faults = [] ∧ SimpleTokens broken ∧
      (ofTokens (broken ++ [semicolon]) 0).statements = [] ∧
      (ofTokens (broken ++ [semicolon]) 0).faults.length = 2 ∧
      unnumbered (ofTokens (beforeEof before ++ (broken ++ semicolon :: after)) 0).statements =
        unnumbered (ofTokens before 0).statements ++ unnumbered (ofTokens after 0).statements ∧
      (ofTokens (beforeEof before ++ (broken ++ semicolon :: after)) 0).faults =
        (ofTokens (broken ++ [semicolon]) 0).faults := by
  intro word semicolon before broken after
  have hbefore : (ofTokens before 0).faults = [] := by decide +kernel
  have hafter : (ofTokens after 0).faults = [] := by decide +kernel
  have hbroken : SimpleTokens broken := .keyword (.inl rfl) (by decide)
  have hnone : (ofTokens (broken ++ [semicolon]) 0).statements = [] := by decide +kernel
  exact ⟨hbefore, hafter, hbroken, hnone, by decide +kernel,
    ofTokens_isolated 0 hbefore hafter rfl hbroken (by decide) hnone⟩

end Program

end LoxLang
