import LoxLang.Proofs.Syntax.Building
import LoxLang.Proofs.Syntax.Levels

/-!
What reading builds has a derivation.

For each function that reads there is one statement about all its ways out, with a number of steps
that suffices: what it builds is derived from the tokens it has passed, its node numbers are new and
distinct, and a failure leaves a reading to go on from.  Each statement for `n + 1` steps follows
from those for `n` steps (`expr_meets` and so on); together they hold for all `n`
(`reading_meets`).

The loop of `continuations` keeps that its left side is an expression of a level whose power the
next token does not exceed (`LeftSide`).
-/

namespace LoxLang

open Grammar Reading Outcome

variable {fits : Nat → Prop}

namespace Read

variable {r : Reading} {α : Type}

/-- A name by itself is derived from one token only. -/
theorem of_read {id : NodeId} {name : Token} {level : Level} {ts : List Token} {e : Expr}
    (h : Expression fits level ts e) : e = .read id name → ts = [name] ∧ name.kind = .identifier :=
  match h with
  | .read _ hn => by
    intro he
    cases he
    exact ⟨rfl, hn⟩
  | .tighter h => of_read h
  | .operation _ _ _ => fun he => (Level.node_ne_read _ _ _ _ _ he).elim
  | .assign .. | .unary .. | .call .. | .number .. | .string .. | .true .. | .false .. | .nil ..
  | .grouping .. | .function .. => by
    intro he
    cases he
termination_by structural h

/-! ## What each function leads to -/

/-- `left` has been read between `r` and `s`, and belongs to every expression read with power `p`
that goes on from there. -/
def LeftSide (fits : Nat → Prop) (p : Power) (r s : Reading) (left : Expr) : Prop :=
  ∃ level : Level, p.operand.rank ≤ level.rank ∧
    s.cursor.kind.power.level ≤ level.power.level ∧
    Builds fits r s left.ids (Expression fits level · left)

/-- One reading leads to a later one with fewer tokens ahead. -/
def Shortens (r s : Reading) : Prop := s.cursor.ahead.length < r.cursor.ahead.length

theorem parameters_meets (n count : Nat) (hr : r.cursor.Closed) :
    (parameters n count r).Meets
      (fun ps s => (s.faults = r.faults → count + ps.length ≤ maxArity) ∧
        Builds fits r s [] (Parameters · ps))
      (Fails r) (TooFew n r 1) := by
  induction n generalizing count r with
  | zero =>
    show TooFew 0 r 1
    unfold TooFew
    omega
  | succ n ih =>
    rw [parameters]
    refine (Moves.refl hr).bind (reportExcess_meets count _ hr) False.elim ?_
    rintro - s ⟨-, hs, hcount⟩
    refine expect_bind_meets hs.toMoves (by decide) ?_
    intro name t hn ht
    have hst := hs.toMoves.trans ht.reads.toMoves
    have hls := hs.length_le
    have hlt := ht.length
    refine hst.bind (behind?_meets ht.closed (by decide) fun _ _ hp =>
      (ih (count + 1) hp.closed).steps ?_) id ?_
    · have := hp.length
      unfold TooFew
      omega
    have hfirst : Builds fits r t [] fun ts => ts = [name] :=
      ⟨_, _, hs.trans ht.reads, fun _ => rfl⟩
    rintro o u (⟨rfl, rfl, -⟩ | ⟨names, comma, rfl, hc, hp, hmore, hb⟩)
    · refine ⟨?_, hfirst.mono ?_⟩
      · intro he
        exact hcount (hs.toMoves.quiet ht.reads.toMoves he).1
      · rintro ts rfl
        exact .one hn
    · refine ⟨?_, (hfirst.append (Builds.cons hp hb)).mono ?_⟩
      · intro he
        obtain ⟨used, hm⟩ := hb.moves
        have hq := (hst.trans hp.reads.toMoves).quiet hm he
        have := hmore hq.2
        rw [Option.getD_some, List.length_cons]
        omega
      · rintro ts ⟨as, bs, rfl, rfl, cs, rfl, hcs⟩
        exact .more hn hc hcs

/-- What the functions that read lead to with `n` steps. -/
structure Meeting (fits : Nat → Prop) (n : Nat) : Prop where
  expr : ∀ p r, p.level ≤ Power.unary.level → r.cursor.Closed →
    (expr n p r).Meets
      (fun e s => s.cursor.kind.power.level ≤ p.level ∧ Shortens r s ∧
        Builds fits r s e.ids (Expression fits p.operand · e))
      (Fails r) (TooFew n r 3)
  continuations : ∀ p r s left, s.cursor.Closed → LeftSide fits p r s left →
    (continuations n p left s).Meets
      (fun e t => t.cursor.kind.power.level ≤ p.level ∧ (∃ used, Moves s t used) ∧
        Builds fits r t e.ids (Expression fits p.operand · e))
      (Fails s) (TooFew n s 2)
  operand : ∀ r, r.cursor.Closed →
    (operand n r).Meets
      (fun e s => Shortens r s ∧ LeftSide fits .unary r s e)
      (Fails r) (TooFew n r 1)
  continuation : ∀ p r s left, p.level < s.cursor.kind.power.level → s.cursor.Closed →
    LeftSide fits p r s left →
    (continuation n s.cursor.kind left s).Meets
      (fun e t => Shortens s t ∧ (∃ used, Moves s t used) ∧ LeftSide fits p r t e)
      (Fails s) (TooFew n s 1)
  arguments : ∀ count r, r.cursor.Closed →
    (arguments n count r).Meets
      (fun es s => (s.faults = r.faults → count + es.length ≤ maxArity) ∧
        Builds fits r s (Expr.idsAll es) (Arguments fits · es))
      (Fails r) (TooFew n r 4)
  functionRest : ∀ r, r.cursor.Closed →
    (functionRest n r).Meets
      (fun f s => Shortens r s ∧ Builds fits r s (Stmt.idsAll f.2) (Function fits · f.1 f.2))
      (Fails r) (TooFew n r 1)
  blockRest : ∀ r, r.cursor.Closed →
    (blockRest n r).Meets
      (fun ss s => Shortens r s ∧ Builds fits r s (Stmt.idsAll ss) fun ts =>
        ∃ ds closing, ts = ds ++ [closing] ∧ closing.kind = .closeCurly ∧ Declarations fits ds ss)
      (Fails r) (TooFew n r 8)
  declaration : ∀ r, r.cursor.Closed → r.cursor.ahead ≠ [] →
    (declaration n r).Succeeds
      (fun o s => Shortens r s ∧ (o = none → s.faults ≠ r.faults) ∧
        Builds fits r s (Stmt.idsAll o.toList) (Declarations fits · o.toList))
      (TooFew n r 7)
  unguarded : ∀ r, r.cursor.Closed →
    (unguarded n r).Meets
      (fun d s => Shortens r s ∧ Builds fits r s d.ids (Declaration fits · d))
      (Fails r) (TooFew n r 6)
  varDeclaration : ∀ r, r.cursor.Closed → r.cursor.kind = .varKw →
    (varDeclaration n r).Meets
      (fun d s => Shortens r s ∧ Builds fits r s d.ids (VarDeclaration fits · d))
      (Fails r) (TooFew n r 1)
  expressionStatement : ∀ r, r.cursor.Closed →
    (expressionStatement n r).Meets
      (fun d s => Shortens r s ∧ Builds fits r s d.ids (ExpressionStatement fits · d))
      (Fails r) (TooFew n r 4)
  statement : ∀ r, r.cursor.Closed →
    (statement n r).Meets
      (fun d s => Shortens r s ∧ Builds fits r s d.ids fun ts =>
        ∃ dangling, Statement fits dangling ts d ∧ (dangling = true → s.cursor.kind ≠ .elseKw))
      (Fails r) (TooFew n r 5)
  initializer : ∀ r, r.cursor.Closed →
    (initializer n r).Meets
      (fun o s => Builds fits r s (Stmt.idsOption o) (Initializer fits · o))
      (Fails r) (TooFew n r 5)
  forStatement : ∀ r, r.cursor.Closed → r.cursor.kind = .forKw →
    (forStatement n r).Meets
      (fun d s => Shortens r s ∧ Builds fits r s d.ids fun ts =>
        ∃ dangling, Statement fits dangling ts d ∧ (dangling = true → s.cursor.kind ≠ .elseKw))
      (Fails r) (TooFew n r 1)

variable {n : Nat} (h : Meeting fits n)
include h

theorem expr_meets {p : Power} (hp : p.level ≤ Power.unary.level) (hr : r.cursor.Closed) :
    (Read.expr (n + 1) p r).Meets
      (fun e s => s.cursor.kind.power.level ≤ p.level ∧ Shortens r s ∧
        Builds fits r s e.ids (Expression fits p.operand · e))
      (Fails r) (TooFew (n + 1) r 3) := by
  rw [Read.expr]
  refine (Moves.refl hr).bind (h.operand r hr) (by unfold TooFew; omega) ?_
  rintro left s ⟨hs, level, hl, hk, hb⟩
  obtain ⟨used, hm⟩ := hb.moves
  have hleft : LeftSide fits p r s left :=
    ⟨level, Nat.le_trans (Power.operand_rank_le_unary hp) hl, hk, hb⟩
  refine (h.continuations p r s left hb.closed hleft).mono ?_ (fun _ _ hf => hf.weaken hm) ?_
  · rintro e t ⟨hk, ⟨used', hm'⟩, hb⟩
    have := hm'.length_le
    exact ⟨hk, by unfold Shortens at *; omega, hb⟩
  · unfold TooFew Shortens at *
    omega

/-- After `s`, where `r` has led, an expression and the token of kind `k` that ends it. -/
theorem ended_bind_meets {β : Type} {k : Kind} {expectation : String} {f : Expr → Read β}
    {good : β → Reading → Prop} {short : Prop} {s : Reading} {used : List Token}
    (hm : Moves r s used) (hk : k ≠ .eof) (hshort : TooFew n s 3 → short)
    (hf : ∀ e t, Shortens s t →
      (Builds fits s t e.ids fun ts => ∃ as closing, ts = as ++ [closing] ∧ closing.kind = k ∧
        Expression fits .assignment as e) → (f e t).Meets good (Fails r) short) :
    ((Read.expr n .none >>= fun e => expect k expectation >>= fun _ => f e) s).Meets
      good (Fails r) short := by
  refine hm.bind (h.expr .none s (by decide) hm.closed) hshort ?_
  rintro e t ⟨-, ht, he⟩
  obtain ⟨used', hm'⟩ := he.moves
  refine expect_bind_meets (hm.trans hm') hk ?_
  intro closing u hc hu
  have hl := hu.length
  refine hf e u (by unfold Shortens at *; omega) ((he.snoc hu).mono ?_)
  rintro ts ⟨as, rfl, has⟩
  exact ⟨as, closing, rfl, hc, has⟩

theorem continuations_meets {p : Power} {s : Reading} {left : Expr} (hs : s.cursor.Closed)
    (hl : LeftSide fits p r s left) :
    (Read.continuations (n + 1) p left s).Meets
      (fun e t => t.cursor.kind.power.level ≤ p.level ∧ (∃ used, Moves s t used) ∧
        Builds fits r t e.ids (Expression fits p.operand · e))
      (Fails s) (TooFew (n + 1) s 2) := by
  rw [Read.continuations, Action.bind_ok (rfl : kind s = _)]
  split
  · rename_i hp
    refine (Moves.refl hs).bind (h.continuation p r s left hp hs hl) (by unfold TooFew; omega) ?_
    rintro e t ⟨ht, ⟨used, hm⟩, hl⟩
    refine (h.continuations p r t e hm.closed hl).mono ?_ (fun _ _ hf => hf.weaken hm) ?_
    · rintro e' u ⟨hk, ⟨used', hm'⟩, hb⟩
      exact ⟨hk, ⟨_, hm.trans hm'⟩, hb⟩
    · unfold TooFew Shortens at *
      omega
  · rename_i hp
    obtain ⟨level, hlevel, -, hb⟩ := hl
    exact ⟨Nat.le_of_not_lt hp, ⟨[], Moves.refl hs⟩, hb.mono fun ts he => he.loosen hlevel⟩

omit h in
theorem power_level_le (k : Kind) : k.power.level ≤ 9 := by
  cases k <;> decide

omit h in
theorem leftSide_of_primary {s : Reading} {e : Expr}
    (hb : Builds fits r s e.ids (Expression fits .primary · e)) : LeftSide fits .unary r s e :=
  ⟨.primary, by decide, power_level_le _, hb⟩

omit h in
/-- A token that is an expression by itself. -/
theorem leaf_meets {short : Prop} {f : Token → Expr} (hr : r.cursor.Closed)
    (hk : r.cursor.kind ≠ .eof) (hi : ∀ t, (f t).ids = [])
    (hd : ∀ t : Token, t.kind = r.cursor.kind → Expression fits .primary [t] (f t)) :
    ((advance >>= fun t => (pure (f t) : Read Expr)) r).Meets
      (fun e s => Shortens r s ∧ LeftSide fits .unary r s e) (Fails r) short := by
  refine advance_bind_meets hr hk ?_
  intro t s ht hs
  refine ⟨by have := hs.length; unfold Shortens; omega, leftSide_of_primary ?_⟩
  rw [hi t]
  exact (builds_of_passes fits hs).mono fun ts he => he ▸ hd t ht

omit h in
theorem read_meets {short : Prop} (hr : r.cursor.Closed) (hk : r.cursor.kind = .identifier) :
    ((advance >>= fun name => freshId >>= fun id => (pure (.read id name) : Read Expr)) r).Meets
      (fun e s => Shortens r s ∧ LeftSide fits .unary r s e) (Fails r) short := by
  refine advance_bind_meets hr (by simp [hk]) ?_
  intro name s hn hs
  rw [Action.bind_ok (rfl : freshId s = _)]
  refine ⟨by have := hs.length; unfold Shortens; simp only; omega, leftSide_of_primary ?_⟩
  refine (Builds.cons hs (builds_freshId hs.closed)).mono ?_
  rintro ts ⟨_, rfl, rfl⟩
  exact .read _ (hn.trans hk)

theorem unary_meets (hr : r.cursor.Closed) (hk : r.cursor.kind = .not ∨ r.cursor.kind = .dash) :
    ((advance >>= fun operator => Read.expr n .unary >>= fun e =>
        (pure (.unary operator e) : Read Expr)) r).Meets
      (fun e s => Shortens r s ∧ LeftSide fits .unary r s e) (Fails r)
      (TooFew (n + 1) r 1) := by
  refine advance_bind_meets hr (by rcases hk with hk | hk <;> simp [hk]) ?_
  intro operator s ho hs
  have hl := hs.length
  refine hs.reads.toMoves.bind (h.expr .unary s (Nat.le_refl _) hs.closed) ?_ ?_
  · unfold TooFew
    omega
  rintro e t ⟨hp, ht, he⟩
  refine ⟨by unfold Shortens at *; omega, .unary, Nat.le_refl _, hp, ?_⟩
  refine (Builds.cons hs he).mono ?_
  rintro ts ⟨bs, rfl, hb⟩
  exact .unary (by rwa [ho]) hb

theorem grouping_meets (hr : r.cursor.Closed) (hk : r.cursor.kind = .openParen) :
    ((advance >>= fun _ => Read.expr n .none >>= fun inner =>
        expect .closeParen "Expect ')' after expression" >>= fun _ =>
          (pure (.grouping inner) : Read Expr)) r).Meets
      (fun e s => Shortens r s ∧ LeftSide fits .unary r s e) (Fails r)
      (TooFew (n + 1) r 1) := by
  refine advance_bind_meets hr (by simp [hk]) ?_
  intro opening s ho hs
  have hl := hs.length
  refine ended_bind_meets h hs.reads.toMoves (by decide) (by unfold TooFew; omega) ?_
  intro e t ht he
  refine ⟨by unfold Shortens at *; omega, leftSide_of_primary ((Builds.cons hs he).mono ?_)⟩
  rintro ts ⟨_, rfl, as, closing, rfl, hc, ha⟩
  exact .grouping (ho.trans hk) hc ha

theorem lambda_meets (hr : r.cursor.Closed) (hk : r.cursor.kind = .funKw) :
    ((advance >>= fun keyword => functionRest n >>= fun f =>
        (pure (.function keyword f.1 f.2) : Read Expr)) r).Meets
      (fun e s => Shortens r s ∧ LeftSide fits .unary r s e) (Fails r)
      (TooFew (n + 1) r 1) := by
  refine advance_bind_meets hr (by simp [hk]) ?_
  intro keyword s ho hs
  have hl := hs.length
  refine hs.reads.toMoves.bind (h.functionRest s hs.closed) ?_ ?_
  · unfold TooFew
    omega
  rintro ⟨params, body⟩ t ⟨ht, hf⟩
  refine ⟨by unfold Shortens at *; omega, leftSide_of_primary ?_⟩
  refine (Builds.cons hs hf).mono ?_
  rintro ts ⟨bs, rfl, hb⟩
  exact .function (ho.trans hk) hb

theorem operand_meets (hr : r.cursor.Closed) :
    (Read.operand (n + 1) r).Meets
      (fun e s => Shortens r s ∧ LeftSide fits .unary r s e) (Fails r) (TooFew (n + 1) r 1) := by
  rw [Read.operand, Action.bind_ok (rfl : kind r = _)]
  cases hk : r.cursor.kind
  case number =>
    exact leaf_meets hr (by simp [hk]) (fun _ => rfl) fun t ht => .number (ht.trans hk)
  case string =>
    exact leaf_meets hr (by simp [hk]) (fun _ => rfl) fun t ht => .string (ht.trans hk)
  case trueKw =>
    exact leaf_meets hr (by simp [hk]) (fun _ => rfl) fun t ht => .true (ht.trans hk)
  case falseKw =>
    exact leaf_meets hr (by simp [hk]) (fun _ => rfl) fun t ht => .false (ht.trans hk)
  case nilKw =>
    exact leaf_meets hr (by simp [hk]) (fun _ => rfl) fun t ht => .nil (ht.trans hk)
  case identifier => exact read_meets hr hk
  case not => exact unary_meets h hr (.inl hk)
  case dash => exact unary_meets h hr (.inr hk)
  case openParen => exact grouping_meets h hr hk
  case funKw => exact lambda_meets h hr hk
  all_goals exact fail_expected_meets _ hr

theorem assignment_meets {s : Reading} {left : Expr} (hs : s.cursor.Closed)
    (hk : s.cursor.kind = .assignment) (hl : LeftSide fits .none r s left) :
    ((advance >>= fun operator => Read.expr n .none >>= fun value =>
        match left with
        | .read _ name => freshId >>= fun id => (pure (.assign id name value) : Read Expr)
        | other => report ⟨operator, .invalidAssignmentTarget⟩ >>= fun _ => pure other) s).Meets
      (fun e t => Shortens s t ∧ (∃ used, Moves s t used) ∧ LeftSide fits .none r t e)
      (Fails s) (TooFew (n + 1) s 1) := by
  obtain ⟨level, hlevel, hpower, hleft⟩ := hl
  refine advance_bind_meets hs (by simp [hk]) ?_
  intro operator t ho ht
  have hlen := ht.length
  refine ht.reads.toMoves.bind (h.expr .none t (by decide) ht.closed) ?_ ?_
  · unfold TooFew
    omega
  rintro value u ⟨hp, hu, hv⟩
  have hshort : Shortens s u := by unfold Shortens at *; omega
  obtain ⟨used, hm⟩ := hv.moves
  have hmoves := ht.reads.toMoves.trans hm
  have hboth := hleft.append (Builds.cons ht hv)
  split
  · rename_i id name
    rw [Action.bind_ok (rfl : freshId u = _)]
    refine ⟨hshort, ⟨_, hmoves.trans (moves_freshId hm.closed)⟩, .assignment, Nat.le_refl _, Nat.le_trans hp (by decide), ?_⟩
    have hids : (value.ids ++ [u.nextId]).Sublist ([id] ++ value.ids ++ [u.nextId]) :=
      (List.sublist_append_right _ _).append_right _
    refine ((hboth.append (builds_freshId hm.closed)).sublist hids).mono ?_
    rintro ts ⟨as, bs, rfl, ⟨cs, ds, rfl, hc, es, rfl, hd⟩, rfl⟩
    obtain ⟨rfl, hn⟩ := of_read hc rfl
    rw [List.append_nil]
    exact .assign _ hn (ho.trans hk) hd
  · rw [Action.bind_ok (rfl : report _ u = _)]
    have hlast : Moves u { u with faults := ⟨operator, .invalidAssignmentTarget⟩ :: u.faults } [] :=
      ⟨hm.closed, rfl, List.suffix_cons _ _, Nat.le_refl _⟩
    refine ⟨hshort, ⟨_, hmoves.trans hlast⟩, level, hlevel, Nat.le_trans hp (Nat.zero_le _), ?_⟩
    refine hleft.drop (hmoves.trans hlast) ?_
    intro he
    obtain ⟨used', hm'⟩ := hboth.moves
    have := hm'.faults.length_le
    rw [← he] at this
    exact Nat.not_succ_le_self _ this

theorem arguments_meets (count : Nat) (hr : r.cursor.Closed) :
    (Read.arguments (n + 1) count r).Meets
      (fun es s => (s.faults = r.faults → count + es.length ≤ maxArity) ∧
        Builds fits r s (Expr.idsAll es) (Arguments fits · es))
      (Fails r) (TooFew (n + 1) r 4) := by
  rw [Read.arguments]
  refine (Moves.refl hr).bind (reportExcess_meets count _ hr) False.elim ?_
  rintro - s ⟨-, hs, hcount⟩
  have hls := hs.length_le
  refine hs.toMoves.bind (h.expr .none s (by decide) hs.closed) ?_ ?_
  · unfold TooFew
    omega
  rintro e t ⟨-, ht, he⟩
  have hfirst : Builds fits r t e.ids (Expression fits .assignment · e) := he.after hs
  obtain ⟨used, hm⟩ := hfirst.moves
  refine hm.bind (behind?_meets hm.closed (by decide) fun _ _ hp =>
    (h.arguments (count + 1) _ hp.closed).steps ?_) id ?_
  · have := hp.length
    unfold TooFew Shortens at *
    omega
  rintro o u (⟨rfl, rfl, -⟩ | ⟨es, comma, rfl, hc, hp, hmore, hb⟩)
  · refine ⟨fun hq => hcount (hs.toMoves.quiet he.moves.choose_spec hq).1, ?_⟩
    rw [Option.getD_none, Expr.idsAll, Expr.idsAll, List.append_nil]
    exact hfirst.mono fun ts hts => .one hts
  · refine ⟨?_, (hfirst.append (Builds.cons hp hb)).mono ?_⟩
    · intro hq
      obtain ⟨used', hm'⟩ := hb.moves
      have := hmore ((hm.trans hp.reads.toMoves).quiet hm' hq).2
      rw [Option.getD_some, List.length_cons]
      omega
    · rintro ts ⟨as, bs, rfl, has, cs, rfl, hcs⟩
      exact .more hc has hcs

/-- The arguments between parentheses. -/
theorem argumentList_meets (hfits : ∀ k ≤ maxArity, fits k) (hr : r.cursor.Closed) :
    (before? .closeParen (Read.arguments n 0) r).Meets
      (fun o s => Builds fits r s (Expr.idsAll (o.getD [])) fun ts =>
        ArgumentList fits ts (o.getD []) ∧ fits (o.getD []).length)
      (Fails r) (TooFew n r 4) := by
  refine (before?_meets fun _ => h.arguments 0 r hr).mono ?_ (fun _ _ => id) id
  rintro o s (⟨rfl, rfl, -⟩ | ⟨es, rfl, hcount, hb⟩)
  · refine (Builds.refl hr).mono ?_
    rintro ts rfl
    exact ⟨.none, hfits 0 (Nat.zero_le _)⟩
  · rw [Option.getD_some]
    refine (hb.and (q := fits es.length) ?_).mono fun ts hts => ⟨.some hts.1, hts.2⟩
    rintro (hq | hq)
    · have := hcount hq
      exact hfits _ (by omega)
    · exact hq _

theorem call_meets (hfits : ∀ k ≤ maxArity, fits k) {p : Power} {s : Reading} {left : Expr}
    (hp : p.level < Power.call.level) (hs : s.cursor.Closed) (hk : s.cursor.kind = .openParen)
    (hl : LeftSide fits p r s left) :
    ((advance >>= fun _ => before? .closeParen (Read.arguments n 0) >>= fun values =>
        expect .closeParen "Expect ')' after arguments" >>= fun paren =>
          (pure (.call left paren (values.getD [])) : Read Expr)) s).Meets
      (fun e t => Shortens s t ∧ (∃ used, Moves s t used) ∧ LeftSide fits p r t e)
      (Fails s) (TooFew (n + 1) s 1) := by
  obtain ⟨level, -, hpower, hleft⟩ := hl
  rw [hk] at hpower
  have hrank := Level.rank_le_of_power_le (l := .call) (by decide) hpower
  refine advance_bind_meets hs (by simp [hk]) ?_
  intro opening t ho ht
  have hlt := ht.length
  refine ht.reads.toMoves.bind (argumentList_meets h hfits ht.closed) ?_ ?_
  · unfold TooFew
    omega
  intro o u hb
  obtain ⟨used, hm⟩ := hb.moves
  refine expect_bind_meets (ht.reads.toMoves.trans hm) (by decide) ?_
  intro closing v hc hv
  have hlu := hb.length_le
  have hlv := hv.length
  refine ⟨by unfold Shortens; omega, ⟨_, (ht.reads.toMoves.trans hm).trans hv.reads.toMoves⟩,
    .call, ?_, power_level_le _, ?_⟩
  · exact Power.operand_rank_le (l := .call) hp
  refine (hleft.append (Builds.cons ht (hb.snoc hv))).mono ?_
  rintro ts ⟨as, bs, rfl, has, cs, rfl, ds, rfl, hargs, hlen⟩
  exact .call (ho.trans hk) hc (has.loosen hrank) hargs hlen

theorem operation_meets {p : Power} {s : Reading} {left : Expr} {l : Level}
    (hp : p.level < s.cursor.kind.power.level) (hs : s.cursor.Closed)
    (hk : s.cursor.kind ∈ l.operators) (hl : LeftSide fits p r s left) :
    ((advance >>= fun operator => Read.expr n s.cursor.kind.power >>= fun right =>
        (pure (l.node left operator right) : Read Expr)) s).Meets
      (fun e t => Shortens s t ∧ (∃ used, Moves s t used) ∧ LeftSide fits p r t e)
      (Fails s) (TooFew (n + 1) s 1) := by
  have hlp := Level.power_of_mem hk
  have hnext := Level.operand_of_mem hk
  have hrank := Level.rank_of_mem hk
  obtain ⟨level, hlevel, hpower, hleft⟩ := hl
  refine advance_bind_meets hs ?_ ?_
  · intro he
    rw [he] at hp
    exact Nat.not_lt_zero _ hp
  intro operator t hop ht
  have hlen := ht.length
  refine ht.reads.toMoves.bind (h.expr _ t (Level.power_le_of_mem hk) ht.closed) ?_ ?_
  · unfold TooFew
    omega
  rintro right u ⟨hpow, hu, hright⟩
  obtain ⟨used, hm⟩ := hright.moves
  rw [hlp] at hp hpow hpower
  refine ⟨by unfold Shortens at *; omega, ⟨_, ht.reads.toMoves.trans hm⟩, l,
    Power.operand_rank_le hp, hpow, ?_⟩
  rw [Level.ids_node]
  refine (hleft.append (Builds.cons ht hright)).mono ?_
  rintro ts ⟨as, bs, rfl, has, cs, rfl, hcs⟩
  rw [hnext] at hcs
  have hle : l.rank ≤ Level.call.rank := Nat.le_trans (Nat.le_of_lt hrank.2) (by decide)
  exact .operation (by rwa [hop]) (has.loosen (Level.rank_le_of_power_le hle hpower)) hcs

theorem continuation_meets (hfits : ∀ k ≤ maxArity, fits k) {p : Power} {s : Reading} {left : Expr}
    (hp : p.level < s.cursor.kind.power.level) (hs : s.cursor.Closed)
    (hl : LeftSide fits p r s left) :
    (Read.continuation (n + 1) s.cursor.kind left s).Meets
      (fun e t => Shortens s t ∧ (∃ used, Moves s t used) ∧ LeftSide fits p r t e)
      (Fails s) (TooFew (n + 1) s 1) := by
  by_cases ha : s.cursor.kind = .assignment
  · rw [ha] at hp ⊢
    have hnone : p = .none := Power.level_inj (Nat.lt_one_iff.1 hp)
    subst hnone
    exact assignment_meets h hs ha hl
  by_cases ho : s.cursor.kind = .openParen
  · rw [ho] at hp ⊢
    exact call_meets h hfits hp hs ho hl
  obtain ⟨l, hk⟩ := exists_level (Nat.ne_zero_of_lt hp) ha ho
  rw [continuation_operator hk]
  exact operation_meets h hp hs hk hl

end Read

end LoxLang
