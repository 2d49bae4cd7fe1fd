import LoxLang.Proofs.Syntax.Derivation

/-!
The statements and declarations that reading builds have derivations, and with them whole programs.

A statement that ends in an `if` without `else` is not followed by `else` (`Reaches`): that is what
puts every `else` behind the nearest `if`.
-/

namespace LoxLang

open Grammar Reading Outcome

variable {fits : Nat → Prop}

theorem ids_forLoop (initializer : Option Stmt) (condition increment : Option Expr) (body : Stmt) :
    (forLoop initializer condition increment body).ids =
      Stmt.idsOption initializer ++
        (Expr.idsOption condition ++ (body.ids ++ Expr.idsOption increment)) := by
  cases initializer <;> cases condition <;> cases increment <;>
    simp [forLoop, Stmt.ids, Stmt.idsAll, Stmt.idsOption, Expr.idsOption, Expr.ids]

namespace Read

variable {r : Reading} {n : Nat}

theorem Passes.kind_eq {s : Reading} {t : Token} (h : Passes r s t) : r.cursor.kind = t.kind := by
  rw [Cursor.kind_eq, h.ahead, firstKind_cons]

/-! ## Functions and blocks -/

/-- The parameters between parentheses. -/
theorem parameterList_meets (hfits : ∀ k ≤ maxArity, fits k) (hr : r.cursor.Closed) :
    (before? .closeParen (parameters n 0) r).Meets
      (fun o s => Builds fits r s [] fun ts =>
        ParameterList ts (o.getD []) ∧ fits (o.getD []).length)
      (Fails r) (TooFew n r 1) := by
  have hp : r.cursor.kind ≠ .closeParen → (parameters n 0 r).Meets
      (fun ps s => (s.faults = r.faults → 0 + ps.length ≤ maxArity) ∧
        Builds fits r s [] (Parameters · ps)) (Fails r) (TooFew n r 1) :=
    fun _ => parameters_meets n 0 hr
  refine (before?_meets hp).mono ?_ (fun _ _ => id) id
  rintro o s (⟨rfl, rfl, -⟩ | ⟨names, rfl, hcount, hb⟩)
  · refine (Builds.refl hr).mono ?_
    rintro ts rfl
    exact ⟨.none, hfits 0 (Nat.zero_le _)⟩
  · rw [Option.getD_some]
    refine (hb.and (q := fits names.length) ?_).mono fun ts hts => ⟨.some hts.1, hts.2⟩
    rintro (hq | hq)
    · have := hcount hq
      exact hfits _ (by omega)
    · exact hq _

variable (h : Meeting fits n)
include h

theorem functionRest_meets (hfits : ∀ k ≤ maxArity, fits k) (hr : r.cursor.Closed) :
    (Read.functionRest (n + 1) r).Meets
      (fun f s => Shortens r s ∧ Builds fits r s (Stmt.idsAll f.2) (Function fits · f.1 f.2))
      (Fails r) (TooFew (n + 1) r 1) := by
  rw [Read.functionRest]
  refine expect_bind_meets (Moves.refl hr) (by decide) ?_
  intro opening s ho hs
  have hls := hs.length
  refine hs.reads.toMoves.bind (parameterList_meets hfits hs.closed) ?_ ?_
  · unfold TooFew
    omega
  intro o t hb
  obtain ⟨used, hm⟩ := hb.moves
  have hrt := hs.reads.toMoves.trans hm
  refine expect_bind_meets hrt (by decide) ?_
  intro closing u hc hu
  refine expect_bind_meets (hrt.trans hu.reads.toMoves) (by decide) ?_
  intro curly v hcu hv
  have hlt := hb.length_le
  have hlu := hu.length
  have hlv := hv.length
  refine ((hrt.trans hu.reads.toMoves).trans hv.reads.toMoves).bind (h.blockRest v hv.closed) ?_ ?_
  · unfold TooFew
    omega
  rintro body w ⟨hw, hbody⟩
  refine ⟨by unfold Shortens at *; omega, ?_⟩
  refine ((Builds.cons hs (hb.snoc hu)).append (Builds.cons hv hbody)).mono ?_
  rintro ts ⟨as, bs, rfl, ⟨cs, rfl, ps, rfl, hps, hlen⟩, ds, rfl, es, closing', rfl, hc', hes⟩
  rw [List.cons_append, List.append_assoc]
  exact .mk ho hc hps hlen (.mk hcu hc' hes)

theorem blockRest_meets (hr : r.cursor.Closed) :
    (Read.blockRest (n + 1) r).Meets
      (fun ss s => Shortens r s ∧ Builds fits r s (Stmt.idsAll ss) fun ts =>
        ∃ ds closing, ts = ds ++ [closing] ∧ closing.kind = .closeCurly ∧ Declarations fits ds ss)
      (Fails r) (TooFew (n + 1) r 8) := by
  rw [Read.blockRest, Action.bind_ok (rfl : check .closeCurly r = _),
    Action.bind_ok (rfl : atEnd r = _)]
  split
  · refine expect_bind_meets (Moves.refl hr) (by decide) ?_
    intro closing s hc hs
    refine ⟨by have := hs.length; unfold Shortens; omega, (builds_of_passes fits hs).mono ?_⟩
    rintro ts rfl
    exact ⟨[], closing, rfl, hc, .nil⟩
  · rename_i hstop
    have hahead : r.cursor.ahead ≠ [] := by
      intro hnil
      rw [Cursor.atEnd_iff.2 hnil, Bool.or_true] at hstop
      exact hstop rfl
    refine (Moves.refl hr).bind (h.declaration r hr hahead).meets (by unfold TooFew; omega) ?_
    rintro o s ⟨hs, -, hb⟩
    obtain ⟨used, hm⟩ := hb.moves
    refine hm.bind (h.blockRest s hm.closed) ?_ ?_
    · unfold TooFew Shortens at *
      omega
    rintro ss t ⟨ht, hb'⟩
    refine ⟨by unfold Shortens at *; omega, ?_⟩
    have hids : Stmt.idsAll (o.toList ++ ss) = Stmt.idsAll o.toList ++ Stmt.idsAll ss := by
      cases o <;> simp [Stmt.idsAll]
    rw [hids]
    refine (hb.append hb').mono ?_
    rintro ts ⟨as, bs, rfl, has, ds, closing, rfl, hc, hds⟩
    refine ⟨as ++ ds, closing, (List.append_assoc _ _ _).symm, hc, ?_⟩
    exact has.append hds

theorem declaration_meets (hr : r.cursor.Closed) (hahead : r.cursor.ahead ≠ []) :
    (Read.declaration (n + 1) r).Succeeds
      (fun o s => Shortens r s ∧ (o = none → s.faults ≠ r.faults) ∧
        Builds fits r s (Stmt.idsAll o.toList) (Declarations fits · o.toList))
      (TooFew (n + 1) r 7) := by
  rw [Read.declaration]
  refine Action.meets_bind.2 (Action.meets_attempt.2 ((h.unguarded r hr).mono ?_ ?_ ?_))
  · rintro d s ⟨hs, hb⟩
    refine ⟨hs, fun he => (Option.some_ne_none d he).elim, ?_⟩
    rw [Option.toList_some, Stmt.idsAll, Stmt.idsAll, List.append_nil]
    refine hb.mono fun ts hts => ?_
    rw [← List.append_nil ts]
    exact .cons hts .nil
  · rintro e s ⟨used, hm⟩
    obtain ⟨skipped, hsk, hne⟩ := hm.closed.ahead_synchronize
    have hlen := hm.length_le
    have hsk' := congrArg List.length hsk
    rw [List.length_append] at hsk'
    have hmore : e :: s.faults ≠ r.faults := by
      intro he
      have := hm.faults.length_le
      rw [← he, List.length_cons] at this
      omega
    refine ⟨?_, fun _ => hmore, used ++ skipped, [], ⟨⟨hm.closed.synchronize, ?_, ?_, hm.nextId⟩,
      Numbers.nil _ _, List.nil_sublist _, fun he => absurd he hmore⟩, fun _ => .nil⟩
    · show s.cursor.synchronize.ahead.length < r.cursor.ahead.length
      by_cases hnil : s.cursor.ahead = []
      · have := List.length_pos_iff.2 hahead
        rw [hnil] at hsk' hlen
        rw [List.length_nil] at hsk' hlen
        omega
      · have := List.length_pos_iff.2 (hne hnil)
        omega
    · rw [hm.ahead, hsk, List.append_assoc]
    · exact hm.faults.trans (List.suffix_cons _ _)
  · unfold TooFew
    omega

/-- What a declaration without a fault leads to. -/
theorem unguarded_meets (hr : r.cursor.Closed) :
    (Read.unguarded (n + 1) r).Meets
      (fun d s => Shortens r s ∧ Builds fits r s d.ids (Declaration fits · d))
      (Fails r) (TooFew (n + 1) r 6) := by
  have hstatement : (Read.statement n r).Meets
      (fun d s => Shortens r s ∧ Builds fits r s d.ids (Declaration fits · d))
      (Fails r) (TooFew (n + 1) r 6) := by
    refine (h.statement r hr).mono ?_ (fun _ _ => id) (by unfold TooFew; omega)
    rintro d s ⟨hs, hb⟩
    refine ⟨hs, hb.mono ?_⟩
    rintro ts ⟨dangling, hd, -⟩
    exact .statement hd
  rw [Read.unguarded, Action.bind_ok (rfl : kind r = _)]
  cases hk : r.cursor.kind
  case varKw =>
    refine (h.varDeclaration r hr hk).mono ?_ (fun _ _ => id) (by unfold TooFew; omega)
    rintro d s ⟨hs, hb⟩
    exact ⟨hs, hb.mono fun ts hts => .var hts⟩
  case funKw =>
    show ((nextKind >>= fun k => _) r).Meets _ _ _
    rw [Action.bind_ok (rfl : nextKind r = _)]
    split
    · refine advance_bind_meets hr (by simp [hk]) ?_
      intro keyword s hkey hs
      refine expect_bind_meets hs.reads.toMoves (by decide) ?_
      intro name t hname ht
      have hls := hs.length
      have hlt := ht.length
      refine (hs.reads.toMoves.trans ht.reads.toMoves).bind (h.functionRest t ht.closed) ?_ ?_
      · unfold TooFew
        omega
      rintro ⟨params, body⟩ u ⟨hu, hf⟩
      refine ⟨by unfold Shortens at *; omega, (Builds.cons hs (Builds.cons ht hf)).mono ?_⟩
      rintro ts ⟨_, rfl, _, rfl, hts⟩
      exact .function (hkey.trans hk) hname hts
    · refine (h.expressionStatement r hr).mono ?_ (fun _ _ => id) (by unfold TooFew; omega)
      rintro d s ⟨hs, hb⟩
      exact ⟨hs, hb.mono fun ts hts => .statement (.expression hts)⟩
  all_goals exact hstatement

/-! ## Simple statements -/

theorem varDeclaration_meets (hr : r.cursor.Closed) (hk : r.cursor.kind = .varKw) :
    (Read.varDeclaration (n + 1) r).Meets
      (fun d s => Shortens r s ∧ Builds fits r s d.ids (VarDeclaration fits · d))
      (Fails r) (TooFew (n + 1) r 1) := by
  rw [Read.varDeclaration]
  refine advance_bind_meets hr (by simp [hk]) ?_
  intro keyword s hkey hs
  refine expect_bind_meets hs.reads.toMoves (by decide) ?_
  intro name t hname ht
  have hrt := hs.reads.toMoves.trans ht.reads.toMoves
  have hls := hs.length
  have hlt := ht.length
  refine hrt.bind (behind?_meets ht.closed (by decide) fun _ _ hp =>
    (h.expr .none _ (by decide) hp.closed).steps ?_) id ?_
  · have := hp.length
    unfold TooFew
    omega
  rintro o u (⟨rfl, rfl, -⟩ | ⟨e, equals, rfl, heq, hp, -, hu, he⟩)
  · refine expect_bind_meets hrt (by decide) ?_
    intro semicolon v hsemi hv
    have hlv := hv.length
    refine ⟨by unfold Shortens at *; omega, ?_⟩
    refine (Builds.cons hs (Builds.cons ht (builds_of_passes fits hv))).mono ?_
    rintro ts ⟨_, rfl, _, rfl, rfl⟩
    exact .unset (hkey.trans hk) hname hsemi
  · obtain ⟨used, hm⟩ := he.moves
    refine expect_bind_meets ((hrt.trans hp.reads.toMoves).trans hm) (by decide) ?_
    intro semicolon v hsemi hv
    have hlp := hp.length
    have hlv := hv.length
    refine ⟨by unfold Shortens at *; omega, ?_⟩
    refine (Builds.cons hs (Builds.cons ht (Builds.cons hp (he.snoc hv)))).mono ?_
    rintro ts ⟨_, rfl, _, rfl, _, rfl, as, rfl, has⟩
    exact .set (hkey.trans hk) hname heq hsemi has

theorem expressionStatement_meets (hr : r.cursor.Closed) :
    (Read.expressionStatement (n + 1) r).Meets
      (fun d s => Shortens r s ∧ Builds fits r s d.ids (ExpressionStatement fits · d))
      (Fails r) (TooFew (n + 1) r 4) := by
  rw [Read.expressionStatement]
  refine ended_bind_meets h (Moves.refl hr) (by decide) (by unfold TooFew; omega) ?_
  intro e s hs he
  refine ⟨hs, he.mono ?_⟩
  rintro ts ⟨as, semicolon, rfl, hsemi, has⟩
  exact .mk hsemi has

/-- An expression unless there is none. -/
theorem clause_meets {k : Kind} (hr : r.cursor.Closed) :
    (before? k (Read.expr n .none) r).Meets
      (fun o s => Builds fits r s (Expr.idsOption o) (Clause fits · o))
      (Fails r) (TooFew n r 3) := by
  refine (before?_meets fun _ => h.expr .none r (by decide) hr).mono ?_ (fun _ _ => id) id
  rintro o s (⟨rfl, rfl, -⟩ | ⟨e, rfl, -, hs, he⟩)
  · refine (Builds.refl hr).mono ?_
    rintro ts rfl
    exact .none
  · exact he.mono fun ts hts => .some hts

/-! ## Statements -/

omit h in
theorem builds_plain {s : Reading} {d : Stmt}
    (hb : Builds fits r s d.ids (Statement fits false · d)) :
    Builds fits r s d.ids fun ts =>
      ∃ dangling, Statement fits dangling ts d ∧ (dangling = true → s.cursor.kind ≠ .elseKw) :=
  hb.mono fun _ hts => ⟨false, hts, fun hd => (Bool.false_ne_true hd).elim⟩

/-- A keyword of kind `k` with a condition in parentheses. -/
def Guard (fits : Nat → Prop) (k : Kind) (condition : Expr) (ts : List Token) : Prop :=
  ∃ keyword opening cs closing, ts = keyword :: opening :: (cs ++ [closing]) ∧ keyword.kind = k ∧
    opening.kind = .openParen ∧ closing.kind = .closeParen ∧
    Expression fits .assignment cs condition

theorem guard_bind_meets {β : Type} {f : Expr → Read β} {good : β → Reading → Prop}
    {expectation expectation' : String} (hr : r.cursor.Closed) (hk : r.cursor.kind ≠ .eof)
    (hf : ∀ c s, Shortens r s → Builds fits r s c.ids (Guard fits r.cursor.kind c) →
      (f c s).Meets good (Fails r) (TooFew (n + 1) r 5)) :
    ((advance >>= fun _ => expect .openParen expectation >>= fun _ =>
        Read.expr n .none >>= fun c => expect .closeParen expectation' >>= fun _ => f c) r).Meets
      good (Fails r) (TooFew (n + 1) r 5) := by
  refine advance_bind_meets hr hk ?_
  intro keyword s hkey hs
  refine expect_bind_meets hs.reads.toMoves (by decide) ?_
  intro opening t ho ht
  have hrt := hs.reads.toMoves.trans ht.reads.toMoves
  have hls := hs.length
  have hlt := ht.length
  refine ended_bind_meets h hrt (by decide) (by unfold TooFew; omega) ?_
  intro c u hu hc
  refine hf c u (by unfold Shortens at *; omega) ?_
  refine (Builds.cons hs (Builds.cons ht hc)).mono ?_
  rintro ts ⟨_, rfl, _, rfl, cs, closing, rfl, hcl, hcs⟩
  exact ⟨keyword, opening, cs, closing, rfl, hkey, ho, hcl, hcs⟩

theorem print_meets (hr : r.cursor.Closed) (hk : r.cursor.kind = .printKw) :
    ((advance >>= fun keyword => Read.expr n .none >>= fun value =>
        expect .semicolon "Expect ';' after value" >>= fun _ =>
          (pure (.print keyword value) : Read Stmt)) r).Meets
      (fun d s => Shortens r s ∧ Builds fits r s d.ids (Statement fits false · d))
      (Fails r) (TooFew (n + 1) r 5) := by
  refine advance_bind_meets hr (by simp [hk]) ?_
  intro keyword s hkey hs
  have hls := hs.length
  refine ended_bind_meets h hs.reads.toMoves (by decide) (by unfold TooFew; omega) ?_
  intro e t ht he
  refine ⟨by unfold Shortens at *; omega, (Builds.cons hs he).mono ?_⟩
  rintro ts ⟨_, rfl, as, semicolon, rfl, hsemi, has⟩
  exact .print (hkey.trans hk) hsemi has

theorem return_meets (hr : r.cursor.Closed) (hk : r.cursor.kind = .returnKw) :
    ((advance >>= fun keyword => before? .semicolon (Read.expr n .none) >>= fun value =>
        expect .semicolon "Expect ';' after return value" >>= fun _ =>
          (pure (.return keyword value) : Read Stmt)) r).Meets
      (fun d s => Shortens r s ∧ Builds fits r s d.ids (Statement fits false · d))
      (Fails r) (TooFew (n + 1) r 5) := by
  refine advance_bind_meets hr (by simp [hk]) ?_
  intro keyword s hkey hs
  have hls := hs.length
  refine hs.reads.toMoves.bind (clause_meets h hs.closed) ?_ ?_
  · unfold TooFew
    omega
  intro o t hb
  obtain ⟨used, hm⟩ := hb.moves
  refine expect_bind_meets (hs.reads.toMoves.trans hm) (by decide) ?_
  intro semicolon u hsemi hu
  have hlt := hb.length_le
  have hlu := hu.length
  refine ⟨by unfold Shortens at *; omega, (Builds.cons hs (hb.snoc hu)).mono ?_⟩
  rintro ts ⟨_, rfl, as, rfl, has⟩
  exact .return (hkey.trans hk) hsemi has

theorem block_meets (hr : r.cursor.Closed) (hk : r.cursor.kind = .openCurly) :
    ((advance >>= fun _ => Read.blockRest n >>= fun body =>
        (pure (.block body) : Read Stmt)) r).Meets
      (fun d s => Shortens r s ∧ Builds fits r s d.ids (Statement fits false · d))
      (Fails r) (TooFew (n + 1) r 5) := by
  refine advance_bind_meets hr (by simp [hk]) ?_
  intro opening s ho hs
  have hls := hs.length
  refine hs.reads.toMoves.bind (h.blockRest s hs.closed) ?_ ?_
  · unfold TooFew
    omega
  rintro body t ⟨ht, hb⟩
  refine ⟨by unfold Shortens at *; omega, (Builds.cons hs hb).mono ?_⟩
  rintro ts ⟨_, rfl, ds, closing, rfl, hc, hds⟩
  exact .block (.mk (ho.trans hk) hc hds)

theorem while_meets (hr : r.cursor.Closed) (hk : r.cursor.kind = .whileKw) :
    ((advance >>= fun _ => expect .openParen "Expect '(' after 'while'" >>= fun _ =>
        Read.expr n .none >>= fun condition =>
        expect .closeParen "Expect ')' after condition" >>= fun _ =>
        Read.statement n >>= fun body => (pure (.while condition body) : Read Stmt)) r).Meets
      (fun d s => Shortens r s ∧ Builds fits r s d.ids fun ts =>
        ∃ dangling, Statement fits dangling ts d ∧ (dangling = true → s.cursor.kind ≠ .elseKw))
      (Fails r) (TooFew (n + 1) r 5) := by
  refine guard_bind_meets h hr (by simp [hk]) ?_
  intro c s hs hc
  obtain ⟨used, hm⟩ := hc.moves
  refine hm.bind (h.statement s hm.closed) (by unfold TooFew Shortens at *; omega) ?_
  rintro body t ⟨ht, hb⟩
  refine ⟨by unfold Shortens at *; omega, (hc.append hb).mono ?_⟩
  rintro ts ⟨as, bs, rfl, ⟨keyword, opening, cs, closing, rfl, hkey, ho, hcl, hcs⟩, d, hd, helse⟩
  refine ⟨d, ?_, helse⟩
  rw [List.cons_append, List.cons_append, List.append_assoc]
  exact .while (hkey.trans hk) ho hcl hcs hd

theorem if_meets (hr : r.cursor.Closed) (hk : r.cursor.kind = .ifKw) :
    ((advance >>= fun _ => expect .openParen "Expect '(' after 'if'" >>= fun _ =>
        Read.expr n .none >>= fun condition =>
        expect .closeParen "Expect ')' after if condition" >>= fun _ =>
        Read.statement n >>= fun thenBranch =>
        behind? .elseKw (Read.statement n) >>= fun elseBranch =>
          (pure (.ifElse condition thenBranch elseBranch) : Read Stmt)) r).Meets
      (fun d s => Shortens r s ∧ Builds fits r s d.ids fun ts =>
        ∃ dangling, Statement fits dangling ts d ∧ (dangling = true → s.cursor.kind ≠ .elseKw))
      (Fails r) (TooFew (n + 1) r 5) := by
  refine guard_bind_meets h hr (by simp [hk]) ?_
  intro c s hs hc
  obtain ⟨used, hm⟩ := hc.moves
  refine hm.bind (h.statement s hm.closed) (by unfold TooFew Shortens at *; omega) ?_
  rintro d t ⟨ht, hb⟩
  have hboth := hc.append hb
  obtain ⟨used', hm'⟩ := hboth.moves
  refine hm'.bind (behind?_meets hm'.closed (by decide) fun _ _ hp =>
    (h.statement _ hp.closed).steps ?_) id ?_
  · have := hp.length
    unfold TooFew Shortens at *
    omega
  rintro o u (⟨rfl, rfl, hno⟩ | ⟨d', otherwise, rfl, ho', hp, hu, hb'⟩)
  · refine ⟨by unfold Shortens at *; omega, ?_⟩
    rw [Stmt.ids, Stmt.idsOption, List.append_nil]
    refine hboth.mono ?_
    rintro ts ⟨as, bs, rfl, ⟨keyword, opening, cs, closing, rfl, hkey, ho, hcl, hcs⟩, dl, hd, -⟩
    refine ⟨true, ?_, fun _ => hno⟩
    rw [List.cons_append, List.cons_append, List.append_assoc]
    exact .ifThen (hkey.trans hk) ho hcl hcs hd
  · have hlp := hp.length
    refine ⟨by unfold Shortens at *; omega, ?_⟩
    rw [Stmt.ids, Stmt.idsOption, ← List.append_assoc]
    refine (hboth.append (Builds.cons hp hb')).mono ?_
    rintro ts ⟨ab, _, rfl, ⟨as, bs, rfl, hguard, dl, hd, helse⟩, us, rfl, dr, hd', hend⟩
    obtain ⟨keyword, opening, cs, closing, rfl, hkey, ho, hcl, hcs⟩ := hguard
    have hfalse : dl = false := by
      cases dl with
      | false => rfl
      | true => exact absurd (hp.kind_eq.trans ho') (helse rfl)
    subst hfalse
    refine ⟨dr, ?_, hend⟩
    simp only [List.cons_append, List.append_assoc, List.nil_append]
    exact .ifElse (hkey.trans hk) ho hcl ho' hcs hd hd'

theorem initializer_meets (hr : r.cursor.Closed) :
    (Read.initializer (n + 1) r).Meets
      (fun o s => Builds fits r s (Stmt.idsOption o) (Initializer fits · o))
      (Fails r) (TooFew (n + 1) r 5) := by
  have hexpression : ((Read.expressionStatement n >>= fun d =>
      (pure (some d) : Read (Option Stmt))) r).Meets
      (fun o s => Builds fits r s (Stmt.idsOption o) (Initializer fits · o))
      (Fails r) (TooFew (n + 1) r 5) := by
    refine (Moves.refl hr).bind (h.expressionStatement r hr) (by unfold TooFew; omega) ?_
    rintro d s ⟨-, hb⟩
    exact hb.mono fun ts hts => .expression hts
  rw [Read.initializer, Action.bind_ok (rfl : kind r = _)]
  cases hk : r.cursor.kind
  case semicolon =>
    refine advance_bind_meets hr (by simp [hk]) ?_
    intro semicolon s hsemi hs
    refine (builds_of_passes fits hs).mono ?_
    rintro ts rfl
    exact .none (hsemi.trans hk)
  case varKw =>
    refine (Moves.refl hr).bind (h.varDeclaration r hr hk) (by unfold TooFew; omega) ?_
    rintro d s ⟨-, hb⟩
    exact hb.mono fun ts hts => .var hts
  all_goals exact hexpression

theorem forStatement_meets (hr : r.cursor.Closed) (hk : r.cursor.kind = .forKw) :
    (Read.forStatement (n + 1) r).Meets
      (fun d s => Shortens r s ∧ Builds fits r s d.ids fun ts =>
        ∃ dangling, Statement fits dangling ts d ∧ (dangling = true → s.cursor.kind ≠ .elseKw))
      (Fails r) (TooFew (n + 1) r 1) := by
  rw [Read.forStatement]
  refine advance_bind_meets hr (by simp [hk]) ?_
  intro keyword s hkey hs
  refine expect_bind_meets hs.reads.toMoves (by decide) ?_
  intro opening t ho ht
  have hrt := hs.reads.toMoves.trans ht.reads.toMoves
  have hls := hs.length
  have hlt := ht.length
  refine hrt.bind (h.initializer t ht.closed) (by unfold TooFew; omega) ?_
  intro i u hi
  obtain ⟨used, hm⟩ := hi.moves
  have hru := hrt.trans hm
  have hlu := hi.length_le
  refine hru.bind (clause_meets h hm.closed) (by unfold TooFew; omega) ?_
  intro c v hc
  obtain ⟨used', hm'⟩ := hc.moves
  have hlv := hc.length_le
  refine expect_bind_meets (hru.trans hm') (by decide) ?_
  intro semicolon w hsemi hw
  have hrw := (hru.trans hm').trans hw.reads.toMoves
  have hlw := hw.length
  refine hrw.bind (clause_meets h hw.closed) (by unfold TooFew; omega) ?_
  intro e x he
  obtain ⟨used'', hm''⟩ := he.moves
  have hlx := he.length_le
  refine expect_bind_meets (hrw.trans hm'') (by decide) ?_
  intro closing y hcl hy
  have hly := hy.length
  refine ((hrw.trans hm'').trans hy.reads.toMoves).bind (h.statement y hy.closed)
    (by unfold TooFew; omega) ?_
  rintro d z ⟨hz, hd⟩
  rw [loopOf_eq]
  refine ⟨by unfold Shortens at *; omega, ?_⟩
  rw [ids_forLoop]
  have hall := Builds.cons hs (Builds.cons ht (hi.append ((hc.snoc hw).append
    ((he.snoc hy).append hd))))
  refine (hall.perm ?_).mono ?_
  · exact (List.perm_append_comm.append_left _).append_left _
  · rintro ts ⟨_, rfl, _, rfl, is, _, rfl, his, _, _, rfl, ⟨cs, rfl, hcs⟩, _, ds, rfl,
      ⟨es, rfl, hes⟩, dl, hds, helse⟩
    refine ⟨dl, ?_, helse⟩
    simp only [List.append_assoc, List.cons_append, List.nil_append]
    exact .for (hkey.trans hk) ho hsemi hcl his hcs hes hds

theorem statement_meets (hr : r.cursor.Closed) :
    (Read.statement (n + 1) r).Meets
      (fun d s => Shortens r s ∧ Builds fits r s d.ids fun ts =>
        ∃ dangling, Statement fits dangling ts d ∧ (dangling = true → s.cursor.kind ≠ .elseKw))
      (Fails r) (TooFew (n + 1) r 5) := by
  have hexpression : (Read.expressionStatement n r).Meets
      (fun d s => Shortens r s ∧ Builds fits r s d.ids fun ts =>
        ∃ dangling, Statement fits dangling ts d ∧ (dangling = true → s.cursor.kind ≠ .elseKw))
      (Fails r) (TooFew (n + 1) r 5) := by
    refine (h.expressionStatement r hr).mono ?_ (fun _ _ => id) (by unfold TooFew; omega)
    rintro d s ⟨hs, hb⟩
    exact ⟨hs, builds_plain (hb.mono fun ts hts => .expression hts)⟩
  rw [Read.statement, Action.bind_ok (rfl : kind r = _)]
  cases hk : r.cursor.kind
  case printKw =>
    exact (print_meets h hr hk).mono (fun d s hd => ⟨hd.1, builds_plain hd.2⟩) (fun _ _ => id) id
  case returnKw =>
    exact (return_meets h hr hk).mono (fun d s hd => ⟨hd.1, builds_plain hd.2⟩) (fun _ _ => id) id
  case openCurly =>
    exact (block_meets h hr hk).mono (fun d s hd => ⟨hd.1, builds_plain hd.2⟩) (fun _ _ => id) id
  case ifKw => exact if_meets h hr hk
  case whileKw => exact while_meets h hr hk
  case forKw => exact (h.forStatement r hr hk).steps (by unfold TooFew; omega)
  all_goals exact hexpression

omit h in
/-- What every function leads to, for any number of steps. -/
theorem reading_meets (hfits : ∀ k ≤ maxArity, fits k) (n : Nat) : Meeting fits n := by
  induction n with
  | zero =>
    have few (r : Reading) (c : Nat) (hc : 0 < c) : TooFew 0 r c := by
      unfold TooFew
      omega
    constructor
    · exact fun _ r _ _ => few r 3 (by decide)
    · exact fun _ _ s _ _ _ => few s 2 (by decide)
    · exact fun r _ => few r 1 (by decide)
    · exact fun _ _ s _ _ _ _ => few s 1 (by decide)
    · exact fun _ r _ => few r 4 (by decide)
    · exact fun r _ => few r 1 (by decide)
    · exact fun r _ => few r 8 (by decide)
    · exact fun r _ _ => few r 7 (by decide)
    · exact fun r _ => few r 6 (by decide)
    · exact fun r _ _ => few r 1 (by decide)
    · exact fun r _ => few r 4 (by decide)
    · exact fun r _ => few r 5 (by decide)
    · exact fun r _ => few r 5 (by decide)
    · exact fun r _ _ => few r 1 (by decide)
  | succ n ih =>
    constructor
    · exact fun _ _ hp hr => expr_meets ih hp hr
    · exact fun _ _ _ _ hs hl => continuations_meets ih hs hl
    · exact fun _ hr => operand_meets ih hr
    · exact fun _ _ _ _ hp hs hl => continuation_meets ih hfits hp hs hl
    · exact fun count _ hr => arguments_meets ih count hr
    · exact fun _ hr => functionRest_meets ih hfits hr
    · exact fun _ hr => blockRest_meets ih hr
    · exact fun _ hr ha => declaration_meets ih hr ha
    · exact fun _ hr => unguarded_meets ih hr
    · exact fun _ hr hk => varDeclaration_meets ih hr hk
    · exact fun _ hr => expressionStatement_meets ih hr
    · exact fun _ hr => statement_meets ih hr
    · exact fun _ hr => initializer_meets ih hr
    · exact fun _ hr hk => forStatement_meets ih hr hk

omit h in
theorem idsAll_append (ss qs : List Stmt) :
    Stmt.idsAll (ss ++ qs) = Stmt.idsAll ss ++ Stmt.idsAll qs := by
  induction ss with
  | nil => rfl
  | cons s ss ih => rw [List.cons_append, Stmt.idsAll, Stmt.idsAll, ih, List.append_assoc]

omit h in
/-- The declarations of a program are read to the end; nothing is left over, whatever is wrong. -/
theorem declarations_meets (hfits : ∀ k ≤ maxArity, fits k) (n : Nat) (hr : r.cursor.Closed) :
    (declarations n r).Succeeds
      (fun ss s => s.cursor.ahead = [] ∧
        Builds fits r s (Stmt.idsAll ss) (Declarations fits · ss))
      (TooFew n r 8) := by
  induction n generalizing r with
  | zero =>
    show TooFew 0 r 8
    unfold TooFew
    omega
  | succ n ih =>
    rw [declarations, Action.bind_ok (rfl : atEnd r = _)]
    split
    · rename_i hend
      refine ⟨Cursor.atEnd_iff.1 hend, (Builds.refl hr).mono ?_⟩
      rintro ts rfl
      exact .nil
    · rename_i hend
      have hahead : r.cursor.ahead ≠ [] := fun hnil => hend (Cursor.atEnd_iff.2 hnil)
      refine Action.succeeds_bind ((reading_meets hfits n).declaration r hr hahead)
        (by unfold TooFew; omega) ?_
      rintro o s ⟨hs, -, hb⟩
      refine Action.succeeds_bind (ih hb.closed) (by unfold TooFew Shortens at *; omega) ?_
      rintro ss t ⟨ht, hb'⟩
      refine ⟨ht, ?_⟩
      rw [idsAll_append]
      refine (hb.append hb').mono ?_
      rintro ts ⟨as, bs, rfl, has, hbs⟩
      exact has.append hbs

end Read

namespace Program

/-- The steps suffice and reading does not fail: it goes on to the end. -/
theorem exists_declarations (hfits : ∀ k ≤ maxArity, fits k) (tokens : List Token)
    (nextId : NodeId) :
    ∃ ss s, Read.declarations (Reading.start tokens nextId).budget (.start tokens nextId) =
        .ok ss s ∧
      ofTokens tokens nextId = ⟨ss, s.faults.reverse, s.nextId⟩ ∧ s.cursor.ahead = [] ∧
      Builds fits (.start tokens nextId) s (Stmt.idsAll ss) (Declarations fits · ss) := by
  have hclosed : (Reading.start tokens nextId).cursor.Closed := Cursor.closed_ofTokens tokens
  have h := Read.declarations_meets hfits (Reading.start tokens nextId).budget hclosed
  have hlen := hclosed.length_ahead_le
  unfold ofTokens Read.withBudget
  cases hd : Read.declarations (Reading.start tokens nextId).budget (.start tokens nextId) with
  | ok ss s =>
    rw [hd] at h
    exact ⟨ss, s, rfl, rfl, h.1, h.2⟩
  | error e s =>
    rw [hd] at h
    exact h.elim
  | exhausted =>
    rw [hd] at h
    have hshort : (Reading.start tokens nextId).budget <
        16 * (Reading.start tokens nextId).cursor.ahead.length + 8 := h
    unfold Reading.budget at hshort
    omega

/-- A program is read to the end, and all of it is derived from the tokens that are kept. -/
theorem ofTokens_builds (hfits : ∀ k ≤ maxArity, fits k) (tokens : List Token) (nextId : NodeId) :
    ∃ s : Reading, ofTokens tokens nextId =
        ⟨(ofTokens tokens nextId).statements, s.faults.reverse, s.nextId⟩ ∧
      s.cursor.ahead = [] ∧
      Builds fits (.start tokens nextId) s (Stmt.idsAll (ofTokens tokens nextId).statements)
        (Declarations fits · (ofTokens tokens nextId).statements) := by
  obtain ⟨ss, s, -, he, hs, hb⟩ := exists_declarations hfits tokens nextId
  rw [he]
  exact ⟨s, rfl, hs, hb⟩

/-- Whatever the tokens are, the statements that were read are derived from some of them. -/
theorem statements_derived (tokens : List Token) (nextId : NodeId) :
    ∃ kept, kept.Sublist (beforeEof tokens) ∧
      Declarations (fun _ => True) kept (ofTokens tokens nextId).statements := by
  obtain ⟨s, -, hs, used, kept, hr, hk⟩ := ofTokens_builds (fun _ _ => trivial) tokens nextId
  have hused := hr.ahead
  rw [hs, List.append_nil] at hused
  refine ⟨kept, ?_, hk (.inr fun _ => trivial)⟩
  rw [← Cursor.ahead_ofTokens tokens]
  exact hused ▸ hr.sublist

/-- The nodes have distinct numbers, none of them given out before. -/
theorem statements_numbered (tokens : List Token) (nextId : NodeId) :
    nextId ≤ (ofTokens tokens nextId).nextId ∧
      (Stmt.idsAll (ofTokens tokens nextId).statements).Nodup ∧
      ∀ i ∈ Stmt.idsAll (ofTokens tokens nextId).statements,
        nextId ≤ i ∧ i < (ofTokens tokens nextId).nextId := by
  obtain ⟨s, he, -, used, kept, hr, -⟩ := ofTokens_builds (fun _ _ => trivial) tokens nextId
  have hn : (ofTokens tokens nextId).nextId = s.nextId := congrArg Program.nextId he
  rw [hn]
  exact ⟨hr.nextId, hr.nodup, fun i hi => ⟨hr.lower i hi, hr.upper i hi⟩⟩

/-- Without faults, the statements are derived from all tokens before the end. -/
theorem derived_of_faults_eq_nil {tokens : List Token} {nextId : NodeId}
    (h : (ofTokens tokens nextId).faults = []) :
    Declarations (· ≤ maxArity) (beforeEof tokens) (ofTokens tokens nextId).statements := by
  obtain ⟨s, he, hs, used, kept, hr, hk⟩ := ofTokens_builds (fun _ hk => hk) tokens nextId
  have hf : s.faults.reverse = [] := (congrArg Program.faults he).symm.trans h
  have hf' : s.faults = (Reading.start tokens nextId).faults := List.reverse_eq_nil_iff.1 hf
  have hused := hr.ahead
  rw [hs, List.append_nil] at hused
  have hb : beforeEof tokens = used := (Cursor.ahead_ofTokens tokens).symm.trans hused
  rw [hb, ← hr.clean hf']
  exact hk (.inl hf')

end Program

end LoxLang
