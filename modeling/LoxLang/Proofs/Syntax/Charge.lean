import LoxLang.Proofs.Syntax.Locality

/-!
Every fault is paid for by a token.

The weight of a reading is the number of its faults and of the tokens ahead: a token that is passed
takes one off, and a fault puts one on.  Whatever reads something takes at least one off, even if it
fails, unless it fails at once and has done nothing (`Gains`).  So there is always a token that pays:
the `=` for a target that is none, the comma for a list that becomes too long, and for a declaration
that is given up the token that recovery passes; at the end of the tokens, where it passes none, one
that was read in the declaration.

With that, reading is over after a number of steps in proportion to the number of tokens, and has
found no more faults than there are tokens (`Program.reading_bounded`).
-/

namespace LoxLang

open Reading Outcome

/-- The number of faults, and of tokens that could still cause some. -/
def Reading.weight (r : Reading) : Nat := r.faults.length + r.cursor.ahead.length

namespace Read

variable {α β : Type} {c c' : Nat} {k : Kind}

/-- The weight grows by at most `c`, whether it succeeds or not. -/
def Costs (c : Nat) (x : Read α) : Prop :=
  ∀ r : Reading, r.cursor.Closed →
    (x r).Meets (fun _ s => s.cursor.Closed ∧ s.weight ≤ r.weight + c)
      (fun _ s => s.cursor.Closed ∧ s.weight ≤ r.weight + c) True

/-- The weight has become less; a failure may also have come at once. -/
def Gained (r : Reading) (o : Outcome TokenError Reading α) : Prop :=
  o.Meets (fun _ s => s.cursor.Closed ∧ s.weight < r.weight)
    (fun _ s => s = r ∨ s.cursor.Closed ∧ s.weight < r.weight) True

def Gains (x : Read α) : Prop := ∀ r : Reading, r.cursor.Closed → Gained r (x r)

/-- The same, if a token of kind `k` is next. -/
def GainsAt (k : Kind) (x : Read α) : Prop :=
  ∀ r : Reading, r.cursor.Closed → r.cursor.kind = k → Gained r (x r)

theorem Gains.at {x : Read α} (h : Gains x) : GainsAt k x := fun r hr _ => h r hr

theorem Gained.within {r : Reading} (hr : r.cursor.Closed) {o : Outcome TokenError Reading α}
    (h : Gained r o) : o.Meets (fun _ s => s.cursor.Closed ∧ s.weight < r.weight)
      (fun _ s => s.cursor.Closed ∧ s.weight ≤ r.weight) True := by
  refine h.mono (fun _ _ => id) ?_ id
  rintro e s (rfl | ⟨hs, hw⟩)
  · exact ⟨hr, Nat.le_refl _⟩
  · exact ⟨hs, Nat.le_of_lt hw⟩

theorem Gains.costs {x : Read α} (h : Gains x) : Costs 0 x := fun r hr =>
  ((h r hr).within hr).mono (fun _ _ hs => ⟨hs.1, Nat.le_of_lt hs.2⟩) (fun _ _ => id) id

/-! ## Computations one after the other -/

theorem costs_pure (a : α) : Costs 0 (Pure.pure a) := fun _ hr => ⟨hr, Nat.le_refl _⟩

theorem costs_freshId : Costs 0 freshId := fun _ hr => ⟨hr, Nat.le_refl _⟩

theorem costs_report (e : TokenError) : Costs 1 (report e) :=
  fun _ hr => ⟨hr, Nat.le_of_eq (Nat.add_right_comm _ 1 _)⟩

theorem gains_failExpected (expectation : String) :
    Gains (α := α) (expected expectation >>= fun e => Action.fail e) := fun _ _ => .inl rfl

theorem Costs.bind {x : Read α} {F : α → Read β} (h : Costs c x) (hk : ∀ a, Costs 0 (F a)) :
    Costs c (x >>= F) := by
  intro r hr
  refine Action.meets_bind.2 ((h r hr).mono ?_ (fun _ _ => id) id)
  rintro a s ⟨hs, hw⟩
  refine (hk a s hs).mono ?_ ?_ id
  · exact fun _ t ht => ⟨ht.1, by omega⟩
  · exact fun _ t ht => ⟨ht.1, by omega⟩

/-- What has been gained is kept. -/
theorem Gains.bind {x : Read α} {F : α → Read β} (h : Gains x) (hk : ∀ a, Costs 0 (F a)) :
    Gains (x >>= F) := by
  intro r hr
  refine Action.meets_bind.2 ((h r hr).mono ?_ (fun _ _ => id) id)
  rintro a s ⟨hs, hw⟩
  refine (hk a s hs).mono ?_ ?_ id
  · exact fun _ t ht => ⟨ht.1, by omega⟩
  · exact fun _ t ht => .inr ⟨ht.1, by omega⟩

/-- What has been gained pays for what comes behind. -/
theorem Gains.pays {x : Read α} {F : α → Read β} (h : Gains x) (hk : ∀ a, Costs 1 (F a)) :
    Costs 0 (x >>= F) := by
  intro r hr
  refine Action.meets_bind.2 (((h r hr).within hr).mono ?_ (fun _ _ => id) id)
  rintro a s ⟨hs, hw⟩
  refine (hk a s hs).mono ?_ ?_ id
  · exact fun _ t ht => ⟨ht.1, by omega⟩
  · exact fun _ t ht => ⟨ht.1, by omega⟩

theorem gains_kind {F : Kind → Read α} (h : ∀ k, GainsAt k (F k)) : Gains (kind >>= F) :=
  fun r hr => h r.cursor.kind r hr rfl

/-! ## Single tokens -/

theorem Passes.weight {r s : Reading} {t : Token} (h : Passes r s t) : s.weight + 1 = r.weight := by
  rw [Reading.weight, Reading.weight, h.faults, h.length]
  rfl

/-- A token that is passed pays for what comes behind. -/
theorem advance_pays {F : Token → Read α} (h : ∀ t, Costs 1 (F t)) {r : Reading}
    (hr : r.cursor.Closed) (hk : r.cursor.kind ≠ .eof) :
    ((advance >>= F) r).Meets (fun _ s => s.cursor.Closed ∧ s.weight ≤ r.weight)
      (fun _ s => s.cursor.Closed ∧ s.weight ≤ r.weight) True := by
  have hpasses := passes_behindCurrent hr hk
  have hw := hpasses.weight
  rw [Action.bind_ok (advance_eq_ok hr hk)]
  refine (h _ _ hpasses.closed).mono ?_ ?_ id
  · exact fun _ s hs => ⟨hs.1, by omega⟩
  · exact fun _ s hs => ⟨hs.1, by omega⟩

theorem gainsAt_advance {F : Token → Read α} (hk : k ≠ .eof) (h : ∀ t, Costs 0 (F t)) :
    GainsAt k (advance >>= F) := by
  rintro r hr rfl
  have hpasses := passes_behindCurrent hr hk
  have hw := hpasses.weight
  rw [Action.bind_ok (advance_eq_ok hr hk)]
  refine (h _ _ hpasses.closed).mono ?_ ?_ id
  · exact fun _ s hs => ⟨hs.1, by omega⟩
  · exact fun _ s hs => .inr ⟨hs.1, by omega⟩

theorem gains_expect (hk : k ≠ .eof) (expectation : String) : Gains (expect k expectation) := by
  intro r hr
  rw [expect_eq]
  split
  · rename_i heq
    rw [advance_eq_ok hr (heq ▸ hk)]
    have hpasses := passes_behindCurrent hr (heq ▸ hk)
    have hw := hpasses.weight
    exact ⟨hpasses.closed, by omega⟩
  · exact .inl rfl

theorem Costs.behind? {x : Read α} (hk : k ≠ .eof) (h : Costs 1 x) : Costs 0 (behind? k x) := by
  intro r hr
  rw [Read.behind?, Action.bind_ok (rfl : check k r = _)]
  by_cases heq : r.cursor.kind = k
  · rw [if_pos (decide_eq_true heq)]
    exact advance_pays (fun _ => h.bind fun a => costs_pure (some a)) hr (heq ▸ hk)
  · rw [if_neg (by simpa using heq)]
    exact ⟨hr, Nat.le_refl _⟩

theorem Costs.before? {x : Read α} (h : Costs 0 x) (k : Kind) : Costs 0 (before? k x) := by
  intro r hr
  rw [Read.before?, Action.bind_ok (rfl : check k r = _)]
  split
  · exact ⟨hr, Nat.le_refl _⟩
  · exact (h.bind fun a => costs_pure (some a)) r hr

theorem Costs.mono {x : Read α} (h : Costs c x) (hc : c ≤ c') : Costs c' x := fun r hr =>
  (h r hr).mono (fun _ _ hs => ⟨hs.1, by omega⟩) (fun _ _ hs => ⟨hs.1, by omega⟩) id

/-- The first item of a list is not one too many. -/
theorem costs_reportExcess (count : Nat) (cause : Cause) :
    Costs (min count 1) (reportExcess count cause) := by
  intro r hr
  rw [reportExcess_eq]
  refine ⟨?_, ?_⟩
  · split <;> exact hr
  · split
    · rename_i hmax
      have hcount : min count 1 = 1 := Nat.min_eq_right (Nat.le_trans (by decide) hmax)
      rw [hcount, Reading.weight, Reading.weight]
      simp only [List.length_cons]
      omega
    · exact Nat.le_add_right _ _

theorem costs_parameters (n count : Nat) : Costs (min count 1) (parameters n count) := by
  induction n generalizing count with
  | zero => exact fun _ _ => trivial
  | succ n ih =>
    refine (costs_reportExcess count _).bind fun _ => ?_
    refine ((gains_expect (by decide) _).bind fun name => ?_).costs
    exact (((ih (count + 1)).mono (Nat.min_le_right _ _)).behind? (by decide)).bind fun _ =>
      costs_pure _

/-! ## Expressions, statements and declarations -/

/-- What the functions that read do to the weight in `n` nested steps. -/
structure Charged (n : Nat) : Prop where
  expr : ∀ power, Gains (expr n power)
  continuations : ∀ power left, Costs 0 (continuations n power left)
  operand : Gains (operand n)
  continuation : ∀ k left, k ≠ .eof → GainsAt k (continuation n k left)
  arguments : ∀ count, Costs (min count 1) (arguments n count)
  functionRest : Gains (functionRest n)
  blockRest : Costs 0 (blockRest n)
  declaration : ∀ r : Reading, r.cursor.Closed → r.cursor.kind ≠ .eof →
    (declaration n r).Succeeds (fun _ s => s.cursor.Closed ∧ s.weight ≤ r.weight) True
  unguarded : Gains (unguarded n)
  varDeclaration : GainsAt .varKw (varDeclaration n)
  expressionStatement : Gains (expressionStatement n)
  statement : Gains (statement n)
  initializer : Gains (initializer n)
  forStatement : GainsAt .forKw (forStatement n)

section

variable {n : Nat} (ih : Charged n)

include ih

theorem Charged.continuations_succ (power : Power) (left : Expr) :
    Costs 0 (Read.continuations (n + 1) power left) := by
  intro r hr
  rw [Read.continuations, Action.bind_ok (rfl : kind r = _)]
  split
  · rename_i hbound
    have hk : r.cursor.kind ≠ .eof := by
      intro hk
      rw [hk] at hbound
      exact absurd hbound (Nat.not_lt_zero _)
    have hfirst := (ih.continuation _ left hk r hr rfl).within hr
    refine Action.meets_bind.2 (hfirst.mono ?_ (fun _ _ => id) id)
    rintro left s ⟨hs, hw⟩
    refine (ih.continuations power left s hs).mono ?_ ?_ id
    · exact fun _ t ht => ⟨ht.1, by omega⟩
    · exact fun _ t ht => ⟨ht.1, by omega⟩
  · exact ⟨hr, Nat.le_refl _⟩

theorem Charged.operand_succ : Gains (Read.operand (n + 1)) := by
  refine gains_kind fun k => ?_
  cases k with
  | number | string | trueKw | falseKw | nilKw =>
    exact gainsAt_advance (by decide) fun _ => costs_pure _
  | identifier => exact gainsAt_advance (by decide) fun _ => costs_freshId.bind fun _ => costs_pure _
  | not | dash =>
    exact gainsAt_advance (by decide) fun _ => (ih.expr .unary).costs.bind fun _ => costs_pure _
  | openParen =>
    refine gainsAt_advance (by decide) fun _ => (ih.expr .none).costs.bind fun inner => ?_
    exact (gains_expect (by decide) _).costs.bind fun _ => costs_pure _
  | funKw =>
    exact gainsAt_advance (by decide) fun _ => ih.functionRest.costs.bind fun _ => costs_pure _
  | _ => exact (gains_failExpected _).at

/-- The operator pays for the fault of an assignment, or its value does. -/
theorem Charged.continuation_succ (k : Kind) (left : Expr) (hk : k ≠ .eof) :
    GainsAt k (Read.continuation (n + 1) k left) := by
  have hoperation : ∀ f : Token → Expr → Expr, GainsAt k
      (advance >>= fun operator => Read.expr n k.power >>= fun right =>
        Pure.pure (f operator right)) := fun f =>
    gainsAt_advance hk fun operator => (ih.expr k.power).costs.bind fun right => costs_pure _
  cases k with
  | assignment =>
    refine gainsAt_advance hk fun operator => (ih.expr .none).pays fun value => ?_
    cases left with
    | read id name => exact (costs_freshId.bind fun id => costs_pure _).mono (Nat.zero_le 1)
    | _ => exact (costs_report _).bind fun _ => costs_pure _
  | openParen =>
    refine gainsAt_advance hk fun _ => ((ih.arguments 0).before? .closeParen).bind fun _ => ?_
    exact (gains_expect (by decide) _).costs.bind fun paren => costs_pure _
  | orKw => exact hoperation (.logical left)
  | andKw => exact hoperation (.logical left)
  | _ => exact hoperation (.binary left)

/-- The comma before an argument pays if it is one too many. -/
theorem Charged.arguments_succ (count : Nat) :
    Costs (min count 1) (Read.arguments (n + 1) count) := by
  refine (costs_reportExcess count _).bind fun _ => ((ih.expr .none).bind fun value => ?_).costs
  exact (((ih.arguments (count + 1)).mono (Nat.min_le_right _ _)).behind? (by decide)).bind
    fun _ => costs_pure _

theorem Charged.functionRest_succ : Gains (Read.functionRest (n + 1)) := by
  refine (gains_expect (by decide) _).bind fun _ => ?_
  refine ((costs_parameters n 0).before? .closeParen).bind fun params => ?_
  refine (gains_expect (by decide) _).costs.bind fun _ => ?_
  refine (gains_expect (by decide) _).costs.bind fun _ => ih.blockRest.bind fun body => ?_
  exact costs_pure _

theorem Charged.blockRest_succ : Costs 0 (Read.blockRest (n + 1)) := by
  intro r hr
  rw [Read.blockRest, Action.bind_ok (rfl : check .closeCurly r = _),
    Action.bind_ok (rfl : atEnd r = _)]
  split
  · exact ((gains_expect (by decide) _).costs.bind fun _ => costs_pure []) r hr
  · rename_i hgo
    have hk : r.cursor.kind ≠ .eof := by
      intro hk
      rw [Cursor.atEnd, hk] at hgo
      simp at hgo
    refine Action.succeeds_bind (ih.declaration r hr hk) id ?_
    rintro first s ⟨hs, hw⟩
    refine ((ih.blockRest.bind fun rest => costs_pure _) s hs).mono ?_ ?_ id
    · exact fun _ t ht => ⟨ht.1, by omega⟩
    · exact fun _ t ht => ⟨ht.1, by omega⟩

/-- The fault of a declaration is paid for by the token that recovery passes, or was paid for before,
when the declaration has failed behind its beginning. -/
theorem Charged.declaration_succ {r : Reading} (hr : r.cursor.Closed) (hk : r.cursor.kind ≠ .eof) :
    (Read.declaration (n + 1) r).Succeeds (fun _ s => s.cursor.Closed ∧ s.weight ≤ r.weight)
      True := by
  rw [Read.declaration]
  refine Action.meets_bind.2 (Action.meets_attempt.2 ((ih.unguarded r hr).mono ?_ ?_ id))
  · rintro d s ⟨hs, hw⟩
    exact ⟨hs, Nat.le_of_lt hw⟩
  · rintro e s hfailed
    have hs : s.cursor.Closed := by
      rcases hfailed with rfl | ⟨hs, -⟩
      · exact hr
      · exact hs
    refine ⟨hs.synchronize, ?_⟩
    obtain ⟨used, hused, hne⟩ := hs.ahead_synchronize
    have hlen := congrArg List.length hused
    rw [List.length_append] at hlen
    show s.faults.length + 1 + s.cursor.synchronize.ahead.length ≤ r.weight
    rcases hfailed with rfl | ⟨-, hw⟩
    · have hpos : 0 < used.length := List.length_pos_iff.2 (hne fun hnil => by
        rw [Cursor.kind_eq, hnil] at hk
        exact hk rfl)
      unfold Reading.weight
      omega
    · unfold Reading.weight at hw ⊢
      omega

theorem Charged.unguarded_succ : Gains (Read.unguarded (n + 1)) := by
  refine gains_kind fun k => ?_
  cases k with
  | varKw => exact ih.varDeclaration
  | funKw =>
    -- the look at the next token changes nothing
    have hnext : ∀ F : Kind → Read Stmt, (∀ next, GainsAt .funKw (F next)) →
        GainsAt .funKw (nextKind >>= F) := fun F h r hr hk => h r.cursor.nextKind r hr hk
    refine hnext _ fun next => ?_
    split
    · refine gainsAt_advance (by decide) fun _ => ?_
      refine (gains_expect (by decide) _).costs.bind fun name => ?_
      exact ih.functionRest.costs.bind fun _ => costs_pure _
    · exact ih.expressionStatement.at
  | _ => exact ih.statement.at

theorem Charged.varDeclaration_succ : GainsAt .varKw (Read.varDeclaration (n + 1)) := by
  refine gainsAt_advance (by decide) fun _ => ?_
  refine (gains_expect (by decide) _).costs.bind fun name => ?_
  refine (((ih.expr .none).costs.mono (Nat.zero_le 1)).behind? (by decide)).bind fun value => ?_
  exact (gains_expect (by decide) _).costs.bind fun _ => costs_pure _

theorem Charged.expressionStatement_succ : Gains (Read.expressionStatement (n + 1)) :=
  (ih.expr .none).bind fun _ => (gains_expect (by decide) _).costs.bind fun _ => costs_pure _

theorem Charged.statement_succ : Gains (Read.statement (n + 1)) := by
  refine gains_kind fun k => ?_
  cases k with
  | printKw =>
    refine gainsAt_advance (by decide) fun keyword => (ih.expr .none).costs.bind fun value => ?_
    exact (gains_expect (by decide) _).costs.bind fun _ => costs_pure _
  | openCurly =>
    exact gainsAt_advance (by decide) fun _ => ih.blockRest.bind fun body => costs_pure _
  | ifKw =>
    refine gainsAt_advance (by decide) fun _ => ?_
    refine (gains_expect (by decide) _).costs.bind fun _ => ?_
    refine (ih.expr .none).costs.bind fun condition => ?_
    refine (gains_expect (by decide) _).costs.bind fun _ => ih.statement.costs.bind fun _ => ?_
    exact ((ih.statement.costs.mono (Nat.zero_le 1)).behind? (by decide)).bind fun _ => costs_pure _
  | whileKw =>
    refine gainsAt_advance (by decide) fun _ => ?_
    refine (gains_expect (by decide) _).costs.bind fun _ => ?_
    refine (ih.expr .none).costs.bind fun condition => ?_
    refine (gains_expect (by decide) _).costs.bind fun _ => ih.statement.costs.bind fun body => ?_
    exact costs_pure _
  | forKw => exact ih.forStatement
  | returnKw =>
    refine gainsAt_advance (by decide) fun keyword => ?_
    refine ((ih.expr .none).costs.before? .semicolon).bind fun value => ?_
    exact (gains_expect (by decide) _).costs.bind fun _ => costs_pure _
  | _ => exact ih.expressionStatement.at

theorem Charged.initializer_succ : Gains (Read.initializer (n + 1)) := by
  refine gains_kind fun k => ?_
  cases k with
  | semicolon => exact gainsAt_advance (by decide) fun _ => costs_pure none
  | varKw =>
    intro r hr hk
    refine Action.meets_bind.2 ((ih.varDeclaration r hr hk).mono ?_ (fun _ _ => id) id)
    exact fun _ _ => id
  | _ => exact (ih.expressionStatement.bind fun s => costs_pure (some s)).at

theorem Charged.forStatement_succ : GainsAt .forKw (Read.forStatement (n + 1)) := by
  refine gainsAt_advance (by decide) fun _ => ?_
  refine (gains_expect (by decide) _).costs.bind fun _ => ?_
  refine ih.initializer.costs.bind fun initializer => ?_
  refine ((ih.expr .none).costs.before? .semicolon).bind fun condition => ?_
  refine (gains_expect (by decide) _).costs.bind fun _ => ?_
  refine ((ih.expr .none).costs.before? .closeParen).bind fun increment => ?_
  refine (gains_expect (by decide) _).costs.bind fun _ => ih.statement.costs.bind fun body => ?_
  exact costs_pure _

end

theorem charged (n : Nat) : Charged n := by
  induction n with
  | zero =>
    exact ⟨fun _ _ _ => trivial, fun _ _ _ _ => trivial, fun _ _ => trivial,
      fun _ _ _ _ _ _ => trivial, fun _ _ _ => trivial, fun _ _ => trivial, fun _ _ => trivial,
      fun _ _ _ => trivial, fun _ _ => trivial, fun _ _ _ => trivial, fun _ _ => trivial,
      fun _ _ => trivial, fun _ _ => trivial, fun _ _ _ => trivial⟩
  | succ n ih =>
    exact ⟨fun power => ih.operand.bind fun left => ih.continuations power left,
      ih.continuations_succ, ih.operand_succ, ih.continuation_succ, ih.arguments_succ,
      ih.functionRest_succ, ih.blockRest_succ, fun _ => ih.declaration_succ, ih.unguarded_succ,
      ih.varDeclaration_succ, ih.expressionStatement_succ, ih.statement_succ, ih.initializer_succ,
      ih.forStatement_succ⟩

/-- Over all declarations, the weight does not grow. -/
theorem declarations_weight (n : Nat) {r : Reading} (hr : r.cursor.Closed) :
    (declarations n r).Meets (fun _ s => s.weight ≤ r.weight) (fun _ _ => True) True := by
  induction n generalizing r with
  | zero => exact trivial
  | succ n ih =>
    rw [declarations, Action.bind_ok (rfl : atEnd r = _)]
    split
    · exact Nat.le_refl _
    · rename_i hend
      have hk : r.cursor.kind ≠ .eof := fun hk => hend (decide_eq_true hk)
      refine Action.succeeds_bind ((charged n).declaration r hr hk) id ?_
      rintro first s ⟨hs, hw⟩
      refine Action.meets_bind.2 ((ih hs).mono ?_ (fun _ _ => id) id)
      exact fun rest t ht => Nat.le_trans ht hw

end Read

/-! ## Progress -/

/-- From `r` to `s` some tokens have been passed, none of them a closing one, and faults have been
added, at least one if there is no statement. -/
structure Reading.Progresses (r s : Reading) (o : Option Stmt) : Prop where
  passed : ∃ passed, passed ≠ [] ∧ r.cursor.remaining = passed ++ s.cursor.remaining ∧
    ∀ t ∈ passed, t.kind ≠ .eof
  faults : ∃ new, s.faults = new ++ r.faults ∧ (o = none → new ≠ [])

namespace Read

theorem declaration_progresses {n : Nat} {r : Reading} (hr : r.cursor.Closed)
    (hk : r.cursor.kind ≠ .eof) (hn : ¬TooFew n r 7) :
    ∃ o s, declaration n r = .ok o s ∧ r.Progresses s o := by
  have hne : r.cursor.ahead ≠ [] := fun hnil => by
    rw [Cursor.kind_eq, hnil] at hk
    exact hk rfl
  have hmeets := (@reading_meets (fun _ => True) (fun _ _ => trivial) n).declaration r hr hne
  have honward := (composing (Nat.le_refl n)).declaration.onward r
  cases hd : declaration n r with
  | error e s =>
    rw [hd] at hmeets
    exact hmeets.elim
  | exhausted =>
    rw [hd] at hmeets
    exact absurd hmeets hn
  | ok o s =>
    rw [hd] at hmeets honward
    obtain ⟨hshorter, hnone, hbuilds⟩ := hmeets
    obtain ⟨used, hmoves⟩ := hbuilds.moves
    obtain ⟨new, hnew⟩ := hmoves.faults
    obtain ⟨passed, hpassed, hopen⟩ := honward
    refine ⟨o, s, rfl, ⟨passed, ?_, hpassed, hopen⟩, new, hnew.symm, ?_⟩
    · rintro rfl
      have hsame : r.cursor.ahead = s.cursor.ahead := congrArg beforeEof hpassed
      unfold Shortens at hshorter
      rw [hsame] at hshorter
      exact Nat.lt_irrefl _ hshorter
    · rintro ho rfl
      exact hnone ho hnew.symm

/-- The rest of a block is the same for all numbers of steps that suffice. -/
theorem blockRest_terminates {r : Reading} (hr : r.cursor.Closed) :
    ∃ o, o ≠ .exhausted ∧ ∀ n, 16 * r.cursor.ahead.length + 8 ≤ n → blockRest n r = o := by
  have hfew : blockRest (16 * r.cursor.ahead.length + 8) r ≠ .exhausted :=
    ((@reading_meets (fun _ => True) (fun _ _ => trivial) _).blockRest r hr).ne_exhausted
      (Nat.lt_irrefl _)
  exact ⟨_, hfew, fun n hn => (composing hn).blockRest.eq_of_ne_exhausted hfew⟩

end Read

namespace Program

theorem length_faults_le (tokens : List Token) (nextId : NodeId) :
    (ofTokens tokens nextId).faults.length ≤ (beforeEof tokens).length := by
  obtain ⟨ss, s, hread, hprogram⟩ := ofTokens_terminates tokens nextId
  have hclosed : (Reading.start tokens nextId).cursor.Closed := Cursor.closed_ofTokens tokens
  have hweight := Read.declarations_weight (16 * (beforeEof tokens).length + 8) hclosed
  rw [hread _ (Nat.le_refl _)] at hweight
  have hstart : (Reading.start tokens nextId).weight = (beforeEof tokens).length := by
    show 0 + (Cursor.ofTokens tokens).ahead.length = _
    rw [Nat.zero_add, Cursor.ahead_ofTokens]
  have hfaults : s.faults.length + s.cursor.ahead.length ≤ (beforeEof tokens).length :=
    hstart ▸ hweight
  rw [hprogram, List.length_reverse]
  exact Nat.le_trans (Nat.le_add_right _ _) hfaults

/-- Before the end, a declaration passes at least one token, does not pass the end, and has a fault if
it comes to nothing; it needs no more than that there is an end, as there is wherever the reading of a
program has come to.  So a block and a program are over after finitely many steps, in proportion to
the tokens, and a program has no more faults than tokens before its end. -/
theorem reading_bounded :
    (∀ n (r : Reading), r.cursor.Closed → r.cursor.kind ≠ .eof →
      16 * r.cursor.ahead.length + 7 ≤ n →
        ∃ o s, Read.declaration n r = .ok o s ∧ r.Progresses s o) ∧
    (∀ r : Reading, r.cursor.Closed →
      ∃ o, o ≠ .exhausted ∧ ∀ n, 16 * r.cursor.ahead.length + 8 ≤ n → Read.blockRest n r = o) ∧
    ∀ tokens nextId,
      (∀ c, (Cursor.ofTokens tokens).Onward c → c.Closed) ∧
      (∃ ss s, (∀ n, 16 * (beforeEof tokens).length + 8 ≤ n →
          Read.declarations n (.start tokens nextId) = .ok ss s) ∧
        ofTokens tokens nextId = ⟨ss, s.faults.reverse, s.nextId⟩) ∧
      (ofTokens tokens nextId).faults.length ≤ (beforeEof tokens).length :=
  ⟨fun _ _ hr hk hn => Read.declaration_progresses hr hk (Nat.not_lt.2 hn),
    fun _ hr => Read.blockRest_terminates hr,
    fun tokens nextId => ⟨fun _ h => h.closed (Cursor.closed_ofTokens tokens),
      ofTokens_terminates tokens nextId, length_faults_le tokens nextId⟩⟩

/-- Two blocks that are not closed, with a `print` in them that has no value: every token has its
fault. -/
theorem reading_bounded_unclosed :
    let word (kind : Kind) (lexeme : String) : Token := ⟨kind, lexeme, none, 1⟩
    let tokens := [word .openCurly "\x7b", word .openCurly "\x7b", word .printKw "print"]
    let r := Reading.start tokens 0
    r.cursor.Closed ∧ r.cursor.kind ≠ .eof ∧
      (∃ o s, Read.declaration 55 r = .ok o s ∧ r.Progresses s o) ∧
      (∃ o, o ≠ .exhausted ∧ Read.blockRest 56 r = o) ∧
      (ofTokens tokens 0).faults.length = 3 ∧
      (ofTokens tokens 0).faults.length ≤ (beforeEof tokens).length := by
  intro word tokens r
  have hclosed : r.cursor.Closed := Cursor.closed_ofTokens tokens
  have hkind : r.cursor.kind ≠ .eof := by decide
  obtain ⟨hdeclaration, hblock, hprogram⟩ := reading_bounded
  obtain ⟨o, ho, hrest⟩ := hblock r hclosed
  exact ⟨hclosed, hkind, hdeclaration 55 r hclosed hkind (by decide), ⟨o, ho, hrest 56 (by decide)⟩,
    by decide +kernel, (hprogram tokens 0).2.2⟩

end Program

end LoxLang
