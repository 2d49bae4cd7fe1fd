import LoxLang.Proofs.Outcome
import LoxLang.Proofs.Syntax.Ahead
import LoxLang.Proofs.Syntax.StatementDerivation
import LoxLang.Proofs.Syntax.Tape

/-!
A tape is read without mishaps.

A tape shows what a cursor sees if the tokens before its position are not closing ones and the cursor
has the rest (`Tape.Shows`).  Step by step, reading by positions then does what reading by a cursor
does: no token is asked for where none is, whatever is called for a token passes that token, and all
faults are ordinary ones of the syntactic phase (`Tape.Mirrors`).
-/

namespace LoxLang

namespace Tape

/-- The tape, whose tokens `before` have been passed, shows what the reading sees. -/
structure ShowsBehind (before : List Token) (t : Tape) (r : Reading) : Prop where
  tokens : t.tokens = before ++ r.cursor.current :: r.cursor.upcoming
  position : t.position = before.length
  unclosed : ∀ token ∈ before, token.kind ≠ .eof
  previous : r.cursor.previous = before.getLast?.getD r.cursor.current
  closed : r.cursor.Closed
  faults : t.faults = r.faults
  nextId : t.nextId = r.nextId
  syntactic : ∀ e ∈ r.faults, e.cause.phase = .syntactic

def Shows (t : Tape) (r : Reading) : Prop := ∃ before, ShowsBehind before t r

/-- Both give the same and go on to places that show the same, or both fail with the same syntactic
fault. -/
abbrev Mirrored {α : Type} (o : Outcome Mishap Tape α) (p : Outcome TokenError Reading α) : Prop :=
  o.Matches p (fun a t b r => a = b ∧ t.Shows r) fun m t e r =>
    m = .fault e ∧ e.cause.phase = .syntactic ∧ t.Shows r

def Mirrors {α : Type} (y : TapeRead α) (x : Read α) : Prop :=
  ∀ t r, t.Shows r → Mirrored (y t) (x r)

/-! ## Computations one after the other -/

section

variable {α β : Type} {x : Read α} {y : TapeRead α}

theorem Mirrors.bind {F : α → Read β} {G : α → TapeRead β} (h : Mirrors y x)
    (hk : ∀ a, Mirrors (G a) (F a)) : Mirrors (y >>= G) (x >>= F) := by
  intro t r ht
  refine Action.matches_bind (h t r ht) ?_
  rintro a t' b r' ⟨rfl, ht'⟩
  exact hk a t' r' ht'

theorem mirrors_pure (a : α) : Mirrors (Pure.pure a) (Pure.pure a) := fun _ _ h => ⟨rfl, h⟩

theorem mirrors_outOfSteps : Mirrors (α := α) Action.outOfSteps Action.outOfSteps :=
  fun _ _ _ => trivial

theorem mirrors_fail {e : TokenError} (he : e.cause.phase = .syntactic) :
    Mirrors (α := α) (fail e) (Action.fail e) := fun _ _ h => ⟨rfl, he, h⟩

theorem mirrors_report {e : TokenError} (he : e.cause.phase = .syntactic) :
    Mirrors (report e) (Read.report e) := by
  rintro t r ⟨before, h⟩
  refine ⟨rfl, before, h.tokens, h.position, h.unclosed, h.previous, h.closed, ?_, h.nextId, ?_⟩
  · exact congrArg (e :: ·) h.faults
  · exact List.forall_mem_cons.2 ⟨he, h.syntactic⟩

theorem mirrors_freshId : Mirrors freshId Read.freshId := by
  rintro t r ⟨before, h⟩
  refine ⟨h.nextId, before, h.tokens, h.position, h.unclosed, h.previous, h.closed, h.faults, ?_,
    h.syntactic⟩
  exact congrArg (· + 1) h.nextId

/-- A fault becomes a value on both sides, with its phase. -/
theorem Mirrors.attempt {F : Except TokenError α → Read β} {G : Except TokenError α → TapeRead β}
    (h : Mirrors y x) (hok : ∀ a, Mirrors (G (.ok a)) (F (.ok a)))
    (herror : ∀ e, e.cause.phase = .syntactic → Mirrors (G (.error e)) (F (.error e))) :
    Mirrors (Tape.attempt y >>= G) (Action.attempt x >>= F) := by
  intro t r ht
  rw [Action.bind_apply, Action.bind_apply, Tape.attempt, Action.attempt]
  rcases (h t r ht).alike with
    ⟨a, t', _, r', hy, hx, rfl, ht'⟩ | ⟨m, t', e, r', hy, hx, rfl, he, ht'⟩ | ⟨hy, hx⟩
  · rw [hy, hx]
    exact hok a t' r' ht'
  · rw [hy, hx]
    exact herror e he t' r' ht'
  · rw [hy, hx]
    exact trivial

end

/-! ## Tokens around the position -/

section

variable {before : List Token} {t : Tape} {r : Reading}

/-- No closing token has been passed. -/
theorem ShowsBehind.any_take (h : ShowsBehind before t r) {index : Nat}
    (hi : index ≤ before.length) : (t.tokens.take index).any (·.kind = .eof) = false := by
  rw [← Bool.not_eq_true, List.any_eq_true]
  rintro ⟨token, htoken, hkind⟩
  rw [h.tokens, List.take_append_of_le_length hi] at htoken
  exact h.unclosed token (List.mem_of_mem_take htoken) (of_decide_eq_true hkind)

theorem ShowsBehind.current (h : ShowsBehind before t r) :
    Tape.current t = .ok r.cursor.current t := by
  have hget : t.tokens[t.position]? = some r.cursor.current := by
    rw [h.tokens, h.position, List.getElem?_append_right (Nat.le_refl _), Nat.sub_self]
    rfl
  show tokenAt t.position t = _
  rw [tokenAt, hget]
  dsimp only
  rw [h.any_take (Nat.le_of_eq h.position), if_neg Bool.false_ne_true]

theorem ShowsBehind.previous_eq (h : ShowsBehind before t r) :
    Tape.previous t = .ok r.cursor.previous t := by
  have hget : t.tokens[t.position - 1]? = some r.cursor.previous := by
    rw [h.previous, h.tokens, h.position]
    rcases List.eq_nil_or_concat before with rfl | ⟨others, last, rfl⟩
    · rfl
    · simp
  show tokenAt (t.position - 1) t = _
  rw [tokenAt, hget]
  dsimp only
  rw [h.any_take (by rw [h.position]; omega), if_neg Bool.false_ne_true]

theorem ShowsBehind.kind (h : ShowsBehind before t r) : Tape.kind t = .ok r.cursor.kind t := by
  show (Tape.current >>= fun token => Pure.pure token.kind) t = _
  rw [Action.bind_ok h.current]
  rfl

theorem ShowsBehind.atEnd (h : ShowsBehind before t r) : Tape.atEnd t = .ok r.cursor.atEnd t := by
  show (Tape.kind >>= fun k => Pure.pure (decide (k = .eof))) t = _
  rw [Action.bind_ok h.kind]
  rfl

theorem ShowsBehind.check (h : ShowsBehind before t r) (k : Kind) :
    Tape.check k t = .ok (decide (r.cursor.kind = k)) t := by
  show (Tape.kind >>= fun own => Pure.pure (decide (own = k))) t = _
  rw [Action.bind_ok h.kind]
  rfl

theorem ShowsBehind.nextKind (h : ShowsBehind before t r) :
    Tape.nextKind t = .ok r.cursor.nextKind t := by
  have hget : t.tokens[t.position + 1]? = r.cursor.upcoming.head? := by
    have hindex : before.length + 1 - before.length = 1 := Nat.add_sub_cancel_left _ _
    rw [h.tokens, h.position, List.getElem?_append_right (Nat.le_add_right _ 1), hindex,
      List.head?_eq_getElem?]
    rfl
  rw [Tape.nextKind, hget]
  rfl

/-! ## Moving on -/

/-- Before the end, moving on passes the current token. -/
theorem ShowsBehind.advance (h : ShowsBehind before t r) (hk : r.cursor.kind ≠ .eof) :
    Tape.advance t = .ok r.cursor.current { t with position := t.position + 1 } ∧
      ShowsBehind (before ++ [r.cursor.current]) { t with position := t.position + 1 }
        { r with cursor := r.cursor.advance } := by
  obtain ⟨next, rest, hu⟩ := List.exists_cons_of_ne_nil (h.closed.upcoming_ne_nil hk)
  have hcursor := Cursor.advance_eq hk hu
  have hshows : ShowsBehind (before ++ [r.cursor.current]) { t with position := t.position + 1 }
      { r with cursor := r.cursor.advance } := by
    refine ⟨?_, ?_, ?_, ?_, h.closed.advance, h.faults, h.nextId, h.syntactic⟩
    · rw [hcursor, List.append_assoc, List.singleton_append, ← hu]
      exact h.tokens
    · rw [List.length_append]
      exact congrArg (· + 1) h.position
    · intro token htoken
      rcases List.mem_append.1 htoken with htoken | htoken
      · exact h.unclosed token htoken
      · rw [List.mem_singleton.1 htoken]
        exact hk
    · rw [hcursor, List.getLast?_concat]
      rfl
  refine ⟨?_, hshows⟩
  have hend : r.cursor.atEnd = false := decide_eq_false hk
  have hprevious := hshows.previous_eq
  rw [hcursor] at hprevious
  show (Tape.atEnd >>= fun b => if b = true then Tape.previous else move >>= fun _ => Tape.previous) t = _
  rw [Action.bind_ok h.atEnd, hend]
  exact hprevious

/-- At the end it stays where it is. -/
theorem ShowsBehind.advance_of_atEnd (h : ShowsBehind before t r) (hk : r.cursor.kind = .eof) :
    Tape.advance t = .ok r.cursor.previous t := by
  have hend : r.cursor.atEnd = true := decide_eq_true hk
  show (Tape.atEnd >>= fun b => if b = true then Tape.previous else move >>= fun _ => Tape.previous) t = _
  rw [Action.bind_ok h.atEnd, hend]
  exact h.previous_eq

end

theorem mirrors_advance : Mirrors advance Read.advance := by
  rintro t r ⟨before, h⟩
  by_cases hk : r.cursor.kind = .eof
  · have hcursor := Cursor.advance_of_atEnd hk
    rw [h.advance_of_atEnd hk, Read.advance, hcursor]
    exact ⟨rfl, before, h⟩
  · obtain ⟨hadvance, hshows⟩ := h.advance hk
    rw [hadvance]
    exact ⟨(h.closed.previous_advance hk).symm, _, hshows⟩

/-- What only looks at the tape. -/
theorem mirrors_look {α : Type} {f : Reading → α} {y : TapeRead α}
    (h : ∀ {before t r}, ShowsBehind before t r → y t = .ok (f r) t) :
    Mirrors y fun r => .ok (f r) r := by
  rintro t r ⟨before, hb⟩
  rw [h hb]
  exact ⟨rfl, before, hb⟩

theorem mirrors_current : Mirrors current Read.current := mirrors_look (·.current)

theorem mirrors_kind : Mirrors kind Read.kind := mirrors_look (·.kind)

theorem mirrors_nextKind : Mirrors nextKind Read.nextKind := mirrors_look (·.nextKind)

theorem mirrors_check (k : Kind) : Mirrors (check k) (Read.check k) := mirrors_look (·.check k)

theorem mirrors_atEnd : Mirrors atEnd Read.atEnd := mirrors_look (·.atEnd)

theorem mirrors_failExpected {α : Type} (expectation : String) :
    Mirrors (α := α) (expected expectation >>= fun e => fail e)
      (Read.expected expectation >>= fun e => Action.fail e) := by
  rintro t r ⟨before, h⟩
  have hexpected : Tape.expected expectation t = .ok (.expected r.cursor.current expectation) t := by
    show (Tape.current >>= fun token => Pure.pure (TokenError.expected token expectation)) t = _
    rw [Action.bind_ok h.current]
    rfl
  rw [Action.bind_ok hexpected]
  exact mirrors_fail rfl t r ⟨before, h⟩

/-- What is called for a token passes it. -/
theorem mirrors_dispatched {α : Type} {k : Kind} (hk : k ≠ .eof) {F : Token → Read α}
    {G : Token → TapeRead α} (h : ∀ token, token.kind = k → Mirrors (G token) (F token)) {t : Tape}
    {r : Reading} (ht : t.Shows r) (hkind : r.cursor.kind = k) :
    Mirrored ((dispatched k >>= G) t) ((Read.advance >>= F) r) := by
  obtain ⟨before, hb⟩ := ht
  have hne : r.cursor.kind ≠ .eof := by
    rw [hkind]
    exact hk
  obtain ⟨hadvance, hshows⟩ := hb.advance hne
  have hdispatched : dispatched k t =
      .ok r.cursor.current { t with position := t.position + 1 } := by
    rw [dispatched, hadvance]
    exact if_pos ⟨rfl, hkind⟩
  have hread : Read.advance r = .ok r.cursor.current { r with cursor := r.cursor.advance } := by
    rw [Read.advance, hb.closed.previous_advance hne]
  rw [Action.bind_ok hdispatched, Action.bind_ok hread]
  exact h _ hkind _ _ ⟨_, hshows⟩

/-! ## Steps that look at one token -/

theorem mirrors_expect (k : Kind) (expectation : String) :
    Mirrors (expect k expectation) (Read.expect k expectation) := by
  refine (mirrors_check k).bind fun b => ?_
  cases b with
  | false => exact mirrors_failExpected expectation
  | true => exact mirrors_advance

theorem Mirrors.behind? {α : Type} {x : Read α} {y : TapeRead α} (k : Kind) (h : Mirrors y x) :
    Mirrors (behind? k y) (Read.behind? k x) := by
  refine (mirrors_check k).bind fun b => ?_
  cases b with
  | false => exact mirrors_pure none
  | true => exact mirrors_advance.bind fun _ => h.bind fun a => mirrors_pure (some a)

theorem Mirrors.before? {α : Type} {x : Read α} {y : TapeRead α} (k : Kind) (h : Mirrors y x) :
    Mirrors (before? k y) (Read.before? k x) := by
  refine (mirrors_check k).bind fun b => ?_
  cases b with
  | false => exact h.bind fun a => mirrors_pure (some a)
  | true => exact mirrors_pure none

theorem mirrors_reportExcess (count : Nat) {cause : Cause} (hc : cause.phase = .syntactic) :
    Mirrors (reportExcess count cause) (Read.reportExcess count cause) := by
  unfold reportExcess Read.reportExcess
  split
  · exact mirrors_current.bind fun token => mirrors_report (e := ⟨token, cause⟩) hc
  · exact mirrors_pure ()

theorem mirrors_parameters (n count : Nat) :
    Mirrors (parameters n count) (Read.parameters n count) := by
  induction n generalizing count with
  | zero => exact mirrors_outOfSteps
  | succ n ih =>
    refine (mirrors_reportExcess count rfl).bind fun _ => ?_
    refine (mirrors_expect .identifier _).bind fun name => ?_
    exact ((ih (count + 1)).behind? .comma).bind fun rest => mirrors_pure _

/-- Skipping stops where the cursor does, and as many steps as there are tokens suffice. -/
theorem mirrors_skip (n : Nat) {t : Tape} {r : Reading} (ht : t.Shows r)
    (hn : r.cursor.upcoming.length < n) :
    Mirrored (skip n t) (.ok () { r with
      cursor := Cursor.skip r.cursor.previous r.cursor.current r.cursor.upcoming }) := by
  induction n generalizing t r with
  | zero => exact absurd hn (Nat.not_lt_zero _)
  | succ n ih =>
    have hshows := ht
    obtain ⟨before, h⟩ := ht
    have hstop : (r.cursor.current.kind = .eof ∨ r.cursor.previous.kind = .semicolon ∨
        r.cursor.current.kind.isBoundary = true) →
          Mirrored (.ok () t) (.ok () { r with
            cursor := Cursor.skip r.cursor.previous r.cursor.current r.cursor.upcoming }) := by
      intro hor
      have hskip : Cursor.skip r.cursor.previous r.cursor.current r.cursor.upcoming =
          r.cursor := by
        unfold Cursor.skip
        exact if_pos (by simpa [or_assoc] using hor)
      rw [hskip]
      exact ⟨rfl, hshows⟩
    show Mirrored ((Tape.atEnd >>= fun b => if b = true then Pure.pure () else
      Tape.previous >>= fun p => if p.kind = .semicolon then Pure.pure () else
        Tape.kind >>= fun k => if k.isBoundary = true then Pure.pure () else
          Tape.advance >>= fun _ => skip n) t) _
    rw [Action.bind_ok h.atEnd]
    by_cases hatEnd : r.cursor.atEnd = true
    · rw [if_pos hatEnd]
      exact hstop (.inl (of_decide_eq_true hatEnd))
    have hend : r.cursor.kind ≠ .eof := fun he => hatEnd (decide_eq_true he)
    rw [if_neg hatEnd, Action.bind_ok h.previous_eq]
    by_cases hsemicolon : r.cursor.previous.kind = .semicolon
    · rw [if_pos hsemicolon]
      exact hstop (.inr (.inl hsemicolon))
    rw [if_neg hsemicolon, Action.bind_ok h.kind]
    by_cases hboundary : r.cursor.kind.isBoundary = true
    · rw [if_pos hboundary]
      exact hstop (.inr (.inr hboundary))
    obtain ⟨hadvance, hnext⟩ := h.advance hend
    obtain ⟨token, rest, hu⟩ := List.exists_cons_of_ne_nil (h.closed.upcoming_ne_nil hend)
    have hcursor := Cursor.advance_eq hend hu
    have hskip : Cursor.skip r.cursor.previous r.cursor.current r.cursor.upcoming =
        Cursor.skip r.cursor.current token rest := by
      rw [hu]
      conv => lhs; unfold Cursor.skip
      refine if_neg ?_
      simp only [Bool.or_eq_true, decide_eq_true_iff]
      rintro ((he | he) | he)
      · exact hend he
      · exact hsemicolon he
      · exact hboundary he
    rw [if_neg hboundary, Action.bind_ok hadvance, hskip]
    rw [hcursor] at hnext
    refine ih ⟨_, hnext⟩ ?_
    rw [hu, List.length_cons] at hn
    show rest.length < n
    omega

theorem mirrors_synchronize : Mirrors synchronize Read.synchronize := by
  intro t r ht
  rcases (mirrors_advance t r ht).alike with
    ⟨a, t', _, r', ha, hr, -, before, h⟩ | ⟨_, _, _, _, -, hr, -⟩ | ⟨-, hr⟩
  · cases hr
    have hskip : Tape.synchronize t = skip t'.tokens.length t' := Action.bind_ok ha
    rw [hskip]
    refine mirrors_skip _ ⟨before, h⟩ ?_
    rw [h.tokens, List.length_append, List.length_cons]
    exact Nat.lt_of_lt_of_le (Nat.lt_succ_self _) (Nat.le_add_left _ _)
  · cases hr
  · cases hr

/-! ## Expressions, statements and declarations -/

/-- A token that binds at all is in the table. -/
theorem exists_continuing {k : Kind} (hk : 0 < k.power.level) :
    ∃ own continuing, continuings.lookup k = some (own, continuing) := by
  rw [← boundBy_eq, boundBy] at hk
  cases hl : continuings.lookup k with
  | none =>
    rw [hl] at hk
    exact absurd hk (Nat.lt_irrefl 0)
  | some found => exact ⟨found.1, found.2, rfl⟩

/-- What `n` nested steps read. -/
structure Mirroring (n : Nat) : Prop where
  expr : ∀ power, Mirrors (expr n power) (Read.expr n power)
  continuations : ∀ power left, Mirrors (continuations n power left) (Read.continuations n power left)
  operand : Mirrors (operand n) (Read.operand n)
  /-- Where the table gives `own` and `continuing` for the current token. -/
  continuation : ∀ k own continuing left, continuings.lookup k = some (own, continuing) →
    ∀ t r, t.Shows r → r.cursor.kind = k →
      Mirrored (continuation n k own continuing left t) (Read.continuation n k left r)
  arguments : ∀ count, Mirrors (arguments n count) (Read.arguments n count)
  functionRest : Mirrors (functionRest n) (Read.functionRest n)
  blockRest : Mirrors (blockRest n) (Read.blockRest n)
  declaration : Mirrors (declaration n) (Read.declaration n)
  unguarded : Mirrors (unguarded n) (Read.unguarded n)
  varDeclaration : Mirrors (varDeclaration n) (Read.varDeclaration n)
  expressionStatement : Mirrors (expressionStatement n) (Read.expressionStatement n)
  statement : Mirrors (statement n) (Read.statement n)
  initializer : Mirrors (initializer n) (Read.initializer n)
  forStatement : Mirrors (forStatement n) (Read.forStatement n)

section

variable {n : Nat} (ih : Mirroring n)

include ih

theorem Mirroring.expr_succ (power : Power) :
    Mirrors (Tape.expr (n + 1) power) (Read.expr (n + 1) power) :=
  ih.operand.bind fun left => ih.continuations power left

theorem Mirroring.continuations_succ (power : Power) (left : Expr) :
    Mirrors (Tape.continuations (n + 1) power left) (Read.continuations (n + 1) power left) := by
  intro t r ht
  have hshows := ht
  obtain ⟨before, h⟩ := ht
  show Mirrored ((Tape.kind >>= fun k => _) t) ((Read.kind >>= fun k => _) r)
  rw [Action.bind_ok h.kind, Action.bind_ok (rfl : Read.kind r = .ok r.cursor.kind r), boundBy_eq]
  by_cases hbound : power.level < r.cursor.kind.power.level
  · rw [if_pos hbound, if_pos hbound]
    obtain ⟨own, continuing, hlookup⟩ := exists_continuing (k := r.cursor.kind) (by omega)
    rw [hlookup]
    refine Action.matches_bind (ih.continuation _ own continuing left hlookup t r hshows rfl) ?_
    rintro left t' _ r' ⟨rfl, ht'⟩
    exact ih.continuations power left t' r' ht'
  · rw [if_neg hbound, if_neg hbound]
    exact ⟨rfl, hshows⟩

theorem Mirroring.operand_succ : Mirrors (Tape.operand (n + 1)) (Read.operand (n + 1)) := by
  intro t r ht
  obtain ⟨before, h⟩ := ht
  show Mirrored ((Tape.kind >>= fun k => _) t) ((Read.kind >>= fun k => _) r)
  rw [Action.bind_ok h.kind, Action.bind_ok (rfl : Read.kind r = .ok r.cursor.kind r)]
  have ht : t.Shows r := ⟨before, h⟩
  have hconstant : ∀ {k : Kind} {c : Token → Constant}, k ≠ .eof → r.cursor.kind = k →
      (∀ token : Token, token.kind = k → primary token = Pure.pure (.constant (c token))) →
      Mirrored ((dispatched k >>= primary) t)
        ((Read.advance >>= fun token => Pure.pure (.constant (c token))) r) := by
    intro k c hne hkind hprimary
    refine mirrors_dispatched hne (fun token htoken => ?_) ht hkind
    rw [hprimary token htoken]
    exact mirrors_pure _
  cases hk : r.cursor.kind with
  | number => exact hconstant (by decide) hk fun token htoken => by rw [primary, htoken]
  | string => exact hconstant (by decide) hk fun token htoken => by rw [primary, htoken]
  | trueKw => exact hconstant (by decide) hk fun token htoken => by rw [primary, htoken]
  | falseKw => exact hconstant (by decide) hk fun token htoken => by rw [primary, htoken]
  | nilKw => exact hconstant (by decide) hk fun token htoken => by rw [primary, htoken]
  | identifier =>
    refine mirrors_dispatched (by decide) (fun name hname => ?_) ht hk
    rw [primary, hname]
    exact mirrors_freshId.bind fun id => mirrors_pure _
  | not =>
    refine mirrors_dispatched (by decide) (fun operator _ => ?_) ht hk
    exact (ih.expr .unary).bind fun e => mirrors_pure _
  | dash =>
    refine mirrors_dispatched (by decide) (fun operator _ => ?_) ht hk
    exact (ih.expr .unary).bind fun e => mirrors_pure _
  | openParen =>
    refine mirrors_dispatched (by decide) (fun _ _ => (ih.expr .none).bind fun e => ?_) ht hk
    exact (mirrors_expect _ _).bind fun _ => mirrors_pure _
  | funKw =>
    refine mirrors_dispatched (by decide) (fun keyword _ => ?_) ht hk
    exact ih.functionRest.bind fun rest => mirrors_pure _
  | _ => exact mirrors_failExpected _ t r ht

theorem Mirroring.continuation_succ (k : Kind) (own : Power) (continuing : Continuing) (left : Expr)
    (hlookup : continuings.lookup k = some (own, continuing)) (t : Tape) (r : Reading)
    (ht : t.Shows r) (hk : r.cursor.kind = k) :
    Mirrored (Tape.continuation (n + 1) k own continuing left t)
      (Read.continuation (n + 1) k left r) := by
  have hne : k ≠ .eof := by
    rintro rfl
    cases hlookup
  have hlogical : ∀ p operator, Mirrors
      (Tape.expr n p >>= fun right => Pure.pure (Expr.logical left operator right))
      (Read.expr n p >>= fun right => Pure.pure (Expr.logical left operator right)) :=
    fun p operator => (ih.expr p).bind fun right => mirrors_pure _
  have hbinary : ∀ p operator, Mirrors
      (Tape.expr n p >>= fun right => Pure.pure (Expr.binary left operator right))
      (Read.expr n p >>= fun right => Pure.pure (Expr.binary left operator right)) :=
    fun p operator => (ih.expr p).bind fun right => mirrors_pure _
  refine mirrors_dispatched hne (fun operator _ => ?_) ht hk
  cases k with
  | assignment =>
    cases hlookup
    refine (ih.expr .none).bind fun value => ?_
    have hother : ∀ other : Expr, Mirrors
        (Tape.report ⟨operator, .invalidAssignmentTarget⟩ >>= fun _ => Pure.pure other)
        (Read.report ⟨operator, .invalidAssignmentTarget⟩ >>= fun _ => Pure.pure other) :=
      fun other => (mirrors_report rfl).bind fun _ => mirrors_pure other
    cases left with
    | read id name => exact mirrors_freshId.bind fun id => mirrors_pure _
    | _ => exact hother _
  | openParen =>
    cases hlookup
    refine ((ih.arguments 0).before? .closeParen).bind fun values => ?_
    exact (mirrors_expect _ _).bind fun paren => mirrors_pure _
  | orKw =>
    cases hlookup
    exact hlogical _ operator
  | andKw =>
    cases hlookup
    exact hlogical _ operator
  | _ =>
    cases hlookup
    try exact hbinary _ operator

theorem Mirroring.arguments_succ (count : Nat) :
    Mirrors (Tape.arguments (n + 1) count) (Read.arguments (n + 1) count) := by
  refine (mirrors_reportExcess count rfl).bind fun _ => (ih.expr .none).bind fun value => ?_
  exact ((ih.arguments (count + 1)).behind? .comma).bind fun rest => mirrors_pure _

theorem Mirroring.functionRest_succ :
    Mirrors (Tape.functionRest (n + 1)) (Read.functionRest (n + 1)) := by
  refine (mirrors_expect _ _).bind fun _ => ?_
  refine ((mirrors_parameters n 0).before? .closeParen).bind fun params => ?_
  refine (mirrors_expect _ _).bind fun _ => (mirrors_expect _ _).bind fun _ => ?_
  exact ih.blockRest.bind fun body => mirrors_pure _

theorem Mirroring.blockRest_succ : Mirrors (Tape.blockRest (n + 1)) (Read.blockRest (n + 1)) := by
  refine (mirrors_check .closeCurly).bind fun b => mirrors_atEnd.bind fun e => ?_
  split
  · exact (mirrors_expect _ _).bind fun _ => mirrors_pure []
  · exact ih.declaration.bind fun first => ih.blockRest.bind fun rest => mirrors_pure _

theorem Mirroring.declaration_succ :
    Mirrors (Tape.declaration (n + 1)) (Read.declaration (n + 1)) := by
  refine ih.unguarded.attempt (fun s => mirrors_pure (some s)) fun e he => ?_
  exact (mirrors_report he).bind fun _ => mirrors_synchronize.bind fun _ => mirrors_pure none

theorem Mirroring.unguarded_succ : Mirrors (Tape.unguarded (n + 1)) (Read.unguarded (n + 1)) := by
  refine mirrors_kind.bind fun k => ?_
  cases k with
  | varKw => exact ih.varDeclaration
  | funKw =>
    refine mirrors_nextKind.bind fun next => ?_
    split
    · refine mirrors_advance.bind fun _ => (mirrors_expect _ _).bind fun name => ?_
      exact ih.functionRest.bind fun rest => mirrors_pure _
    · exact ih.expressionStatement
  | _ => exact ih.statement

theorem Mirroring.varDeclaration_succ :
    Mirrors (Tape.varDeclaration (n + 1)) (Read.varDeclaration (n + 1)) := by
  refine mirrors_advance.bind fun _ => (mirrors_expect _ _).bind fun name => ?_
  refine ((ih.expr .none).behind? .assignment).bind fun value => ?_
  exact (mirrors_expect _ _).bind fun _ => mirrors_pure _

theorem Mirroring.expressionStatement_succ :
    Mirrors (Tape.expressionStatement (n + 1)) (Read.expressionStatement (n + 1)) := by
  refine (ih.expr .none).bind fun value => (mirrors_expect _ _).bind fun _ => ?_
  exact mirrors_pure _

theorem Mirroring.statement_succ : Mirrors (Tape.statement (n + 1)) (Read.statement (n + 1)) := by
  refine mirrors_kind.bind fun k => ?_
  cases k with
  | printKw =>
    refine mirrors_advance.bind fun keyword => (ih.expr .none).bind fun value => ?_
    exact (mirrors_expect _ _).bind fun _ => mirrors_pure _
  | openCurly => exact mirrors_advance.bind fun _ => ih.blockRest.bind fun body => mirrors_pure _
  | ifKw =>
    refine mirrors_advance.bind fun _ => (mirrors_expect _ _).bind fun _ => ?_
    refine (ih.expr .none).bind fun condition => (mirrors_expect _ _).bind fun _ => ?_
    refine ih.statement.bind fun thenBranch => ?_
    exact (ih.statement.behind? .elseKw).bind fun elseBranch => mirrors_pure _
  | whileKw =>
    refine mirrors_advance.bind fun _ => (mirrors_expect _ _).bind fun _ => ?_
    refine (ih.expr .none).bind fun condition => (mirrors_expect _ _).bind fun _ => ?_
    exact ih.statement.bind fun body => mirrors_pure _
  | forKw => exact ih.forStatement
  | returnKw =>
    refine mirrors_advance.bind fun keyword => ?_
    refine ((ih.expr .none).before? .semicolon).bind fun value => ?_
    exact (mirrors_expect _ _).bind fun _ => mirrors_pure _
  | _ => exact ih.expressionStatement

theorem Mirroring.initializer_succ :
    Mirrors (Tape.initializer (n + 1)) (Read.initializer (n + 1)) := by
  have hexpression : Mirrors (Tape.expressionStatement n >>= fun s => Pure.pure (some s))
      (Read.expressionStatement n >>= fun s => Pure.pure (some s)) :=
    ih.expressionStatement.bind fun s => mirrors_pure (some s)
  refine mirrors_kind.bind fun k => ?_
  cases k with
  | semicolon => exact mirrors_advance.bind fun _ => mirrors_pure none
  | varKw => exact ih.varDeclaration.bind fun s => mirrors_pure (some s)
  | _ => exact hexpression

theorem Mirroring.forStatement_succ :
    Mirrors (Tape.forStatement (n + 1)) (Read.forStatement (n + 1)) := by
  refine mirrors_advance.bind fun _ => (mirrors_expect _ _).bind fun _ => ?_
  refine ih.initializer.bind fun initializer => ?_
  refine ((ih.expr .none).before? .semicolon).bind fun condition => ?_
  refine (mirrors_expect _ _).bind fun _ => ?_
  refine ((ih.expr .none).before? .closeParen).bind fun increment => ?_
  refine (mirrors_expect _ _).bind fun _ => ih.statement.bind fun body => ?_
  exact mirrors_pure _

end

theorem mirroring (n : Nat) : Mirroring n := by
  induction n with
  | zero =>
    exact ⟨fun _ => mirrors_outOfSteps, fun _ _ => mirrors_outOfSteps, mirrors_outOfSteps,
      fun _ _ _ _ _ t r ht _ => mirrors_outOfSteps t r ht, fun _ => mirrors_outOfSteps,
      mirrors_outOfSteps, mirrors_outOfSteps, mirrors_outOfSteps, mirrors_outOfSteps,
      mirrors_outOfSteps, mirrors_outOfSteps, mirrors_outOfSteps, mirrors_outOfSteps,
      mirrors_outOfSteps⟩
  | succ n ih =>
    exact ⟨ih.expr_succ, ih.continuations_succ, ih.operand_succ, ih.continuation_succ,
      ih.arguments_succ, ih.functionRest_succ, ih.blockRest_succ, ih.declaration_succ,
      ih.unguarded_succ, ih.varDeclaration_succ, ih.expressionStatement_succ, ih.statement_succ,
      ih.initializer_succ, ih.forStatement_succ⟩

theorem mirrors_declarations (n : Nat) : Mirrors (declarations n) (Read.declarations n) := by
  induction n with
  | zero => exact mirrors_outOfSteps
  | succ n ih =>
    refine mirrors_atEnd.bind fun e => ?_
    split
    · exact mirrors_pure []
    · exact (mirroring n).declaration.bind fun first => ih.bind fun rest => mirrors_pure _

/-! ## A list of tokens -/

theorem shows_start (tokens : List Token) (nextId : NodeId) :
    (start tokens nextId).Shows (.start tokens nextId) := by
  have hclosed := Cursor.closed_ofTokens tokens
  obtain ⟨first, rest, htokens⟩ : ∃ first rest, closeTokens tokens = first :: rest := by
    obtain ⟨t, ht, -⟩ := Cursor.eof_mem_closeTokens tokens
    exact List.exists_cons_of_ne_nil (List.ne_nil_of_mem ht)
  have hcursor : Cursor.ofTokens tokens = ⟨first, first, rest⟩ := by
    rw [Cursor.ofTokens, htokens]
  rw [hcursor] at hclosed
  refine ⟨[], ?_⟩
  rw [Reading.start, hcursor]
  exact ⟨htokens, rfl, fun token h => (List.not_mem_nil h).elim, rfl, hclosed, rfl, rfl,
    fun e h => (List.not_mem_nil h).elim⟩

/-- A list of tokens, whatever it is, is read from the tape without mishap, and gives its program; the
faults are all of the syntactic phase. -/
theorem read_eq (tokens : List Token) (nextId : NodeId) :
    ∃ t, read tokens nextId = .ok (Program.ofTokens tokens nextId).statements t ∧
      t.faults.reverse = (Program.ofTokens tokens nextId).faults ∧
      t.nextId = (Program.ofTokens tokens nextId).nextId ∧
      ∀ e ∈ (Program.ofTokens tokens nextId).faults, e.cause.phase = .syntactic := by
  obtain ⟨ss, s, hread, hprogram, -, -⟩ :=
    @Program.exists_declarations (fun _ => True) (fun _ _ => trivial) tokens nextId
  have hmirrored := mirrors_declarations (Reading.start tokens nextId).budget _ _
    (shows_start tokens nextId)
  rw [hread] at hmirrored
  rw [hprogram]
  show ∃ t, declarations _ (start tokens nextId) = _ ∧ _
  rcases hmirrored.alike with
    ⟨_, t, _, _, ht, hs, rfl, before, h⟩ | ⟨_, _, _, _, -, hs, -⟩ | ⟨-, hs⟩
  · cases hs
    refine ⟨t, ht, congrArg List.reverse h.faults, h.nextId, fun e he => ?_⟩
    exact h.syntactic e (List.mem_reverse.1 he)
  · cases hs
  · cases hs

end Tape

end LoxLang
