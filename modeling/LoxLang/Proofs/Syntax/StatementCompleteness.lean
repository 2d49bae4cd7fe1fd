import LoxLang.Proofs.Syntax.Completeness

/-!
Statements and declarations that are derived are read, and with them whole programs.
-/

namespace LoxLang.Read

open Grammar Reading Outcome

variable {fits : Nat → Prop} {ts us : List Token} {e c : Expr} {d : Stmt} {body : List Stmt}

/-! ## Functions and blocks -/

theorem function_read {opening closing curly closingCurly : Token} {ps params : List Token}
    (ho : opening.kind = .openParen) (hc : closing.kind = .closeParen)
    (hps : ParameterList ps params) (hfits : fits params.length) (hcurly : curly.kind = .openCurly)
    (hclosing : closingCurly.kind = .closeCurly) (hbody : BlockRead fits ts body) :
    FunctionRead fits (opening :: (ps ++ closing :: curly :: (ts ++ [closingCurly]))) params
      body := by
  intro n r us hr ha
  simp only [List.cons_append, List.append_assoc] at ha
  cases n with
  | zero => exact tooFew_zero (by decide)
  | succ n =>
    rw [functionRest]
    refine expect_bind fits hr ha ho fun s hs => ?_
    refine Action.succeeds_bind (parameterList_read hps n hs.closed hs.ahead hc hfits)
      (TooFew.behind ha hs.ahead (Nat.lt_succ_self _) (by decide)) ?_
    rintro o t ⟨ht, rfl⟩
    refine expect_bind fits ht.closed ht.ahead hc fun u hu => ?_
    refine expect_bind fits hu.closed hu.ahead hcurly fun v hv => ?_
    refine Action.succeeds_bind (hbody n v closingCurly us hv.closed hv.ahead hclosing) ?_ ?_
    · refine TooFew.behind ha hv.ahead ?_ (by decide)
      simp only [List.length_append, List.length_cons]
      omega
    rintro body' w ⟨hw, hb⟩
    exact ⟨(((hs.trans ht).trans hu).trans hv).trans hw, rfl, hb⟩

/-- A declaration is read without being given up. -/
theorem declaration_succeeds (h : DeclarationRead fits ts d) (n : Nat) {r : Reading}
    (hr : r.cursor.Closed) (ha : r.cursor.ahead = ts ++ us) (hus : firstKind us ≠ .elseKw) :
    (declaration n r).Succeeds
      (fun o s => ∃ d', o = some d' ∧ Reaches fits r s us ∧ d'.unnumbered = d.unnumbered)
      (TooFew n r 7) := by
  cases n with
  | zero => exact tooFew_zero (by decide)
  | succ n =>
    rw [declaration]
    refine Action.meets_bind.2 (Action.meets_attempt.2 ((h n r us hr ha hus).mono ?_ ?_ ?_))
    · rintro d' s ⟨hs, hd⟩
      exact ⟨d', rfl, hs, hd⟩
    · exact fun _ _ hf => hf.elim
    · unfold TooFew
      omega

theorem block_nil : BlockRead fits [] [] := by
  intro n r closing us hr ha hc
  rw [List.nil_append] at ha
  cases n with
  | zero => exact tooFew_zero (by decide)
  | succ n =>
    have hk : decide (r.cursor.kind = .closeCurly) = true :=
      decide_eq_true ((kind_eq_of_ahead ha).trans hc)
    rw [blockRest, Action.bind_ok (rfl : check .closeCurly r = _),
      Action.bind_ok (rfl : atEnd r = _), hk, Bool.true_or, if_pos rfl]
    exact expect_bind fits hr ha hc fun s hs => ⟨hs, rfl⟩

theorem block_cons (hstart : firstKind ts ≠ .closeCurly ∧ firstKind ts ≠ .eof) (hts : ts ≠ [])
    {qs : List Token} (hqs : qs ≠ [] → firstKind qs ≠ .elseKw) (h : DeclarationRead fits ts d)
    (hbody : BlockRead fits qs body) : BlockRead fits (ts ++ qs) (d :: body) := by
  intro n r closing us hr ha hc
  rw [List.append_assoc] at ha
  cases n with
  | zero => exact tooFew_zero (by decide)
  | succ n =>
    have hkind : r.cursor.kind = firstKind ts := by
      rw [kind_eq_of_ahead ha, firstKind_append _ hts]
    have hk : ¬ (decide (r.cursor.kind = .closeCurly) || r.cursor.atEnd) = true := by
      rw [Cursor.atEnd, hkind]
      simp [hstart.1, hstart.2]
    have helse : firstKind (qs ++ closing :: us) ≠ .elseKw := by
      cases qs with
      | nil =>
        rw [List.nil_append, firstKind_cons, hc]
        decide
      | cons q qs => exact hqs (List.cons_ne_nil q qs)
    rw [blockRest, Action.bind_ok (rfl : check .closeCurly r = _),
      Action.bind_ok (rfl : atEnd r = _), if_neg hk]
    refine Action.succeeds_bind (declaration_succeeds h n hr ha helse) ?_ ?_
    · unfold TooFew
      omega
    rintro o s ⟨d', rfl, hs, hd⟩
    refine Action.succeeds_bind (hbody n s closing us hs.closed hs.ahead hc)
      (TooFew.behind ha hs.ahead ?_ (by decide)) ?_
    · have := List.length_pos_iff.2 hts
      simp only [List.length_append, List.length_cons]
      omega
    rintro body' t ⟨ht, hb⟩
    refine ⟨hs.trans ht, ?_⟩
    show d'.unnumbered :: unnumbered body' = d.unnumbered :: unnumbered body
    rw [hd, show unnumbered body' = unnumbered body from hb]

theorem program_nil : ProgramRead fits [] [] := by
  intro n r hr ha
  cases n with
  | zero => exact tooFew_zero (by decide)
  | succ n =>
    rw [declarations, Action.bind_ok (rfl : atEnd r = _), if_pos (Cursor.atEnd_iff.2 ha)]
    exact ⟨Reaches.refl hr ha, rfl⟩

theorem program_cons (hts : ts ≠ []) {qs : List Token} (hqs : firstKind qs ≠ .elseKw)
    (h : DeclarationRead fits ts d) (hbody : ProgramRead fits qs body) :
    ProgramRead fits (ts ++ qs) (d :: body) := by
  intro n r hr ha
  cases n with
  | zero => exact tooFew_zero (by decide)
  | succ n =>
    have hne : ¬ r.cursor.atEnd = true := by
      rw [Cursor.atEnd_iff, ha]
      exact List.append_ne_nil_of_left_ne_nil hts qs
    rw [declarations, Action.bind_ok (rfl : atEnd r = _), if_neg hne]
    refine Action.succeeds_bind (declaration_succeeds h n hr ha hqs) ?_ ?_
    · unfold TooFew
      omega
    rintro o s ⟨d', rfl, hs, hd⟩
    refine Action.succeeds_bind (hbody n s hs.closed hs.ahead)
      (TooFew.behind ha hs.ahead ?_ (by decide)) ?_
    · have := List.length_pos_iff.2 hts
      rw [List.length_append]
      omega
    rintro body' t ⟨ht, hb⟩
    refine ⟨hs.trans ht, ?_⟩
    show d'.unnumbered :: unnumbered body' = d.unnumbered :: unnumbered body
    rw [hd, show unnumbered body' = unnumbered body from hb]

/-! ## Declarations -/

theorem functionDeclaration_read {keyword name : Token} {params : List Token}
    (hk : keyword.kind = .funKw) (hn : name.kind = .identifier)
    (h : FunctionRead fits ts params body) :
    DeclarationRead fits (keyword :: name :: ts) (.function name params body) := by
  intro n r us hr ha _
  rw [List.cons_append, List.cons_append] at ha
  cases n with
  | zero => exact tooFew_zero (by decide)
  | succ n =>
    have hkind : r.cursor.kind = .funKw := (kind_eq_of_ahead ha).trans hk
    have hnext : r.cursor.nextKind = .identifier := by
      rw [Cursor.nextKind_eq (by rw [hkind]; decide), ha, List.tail_cons, firstKind_cons, hn]
    rw [unguarded, Action.bind_ok (rfl : kind r = _), hkind]
    show ((nextKind >>= fun k => if k = .identifier then _ else _) r).Meets _ _ _
    rw [Action.bind_ok (rfl : nextKind r = _), if_pos hnext]
    refine advance_bind fits hr ha fun s hs => ?_
    refine expect_bind fits hs.closed hs.ahead hn fun t ht => ?_
    refine Action.succeeds_bind (h n t us ht.closed ht.ahead)
      (TooFew.behind ha ht.ahead (by simp only [List.length_cons]; omega) (by decide)) ?_
    rintro ⟨params', body'⟩ u ⟨hu, rfl, hb⟩
    refine ⟨(hs.trans ht).trans hu, ?_⟩
    show Stmt.function name (params'.map id) (unnumbered body') =
      .function name (params'.map id) (unnumbered body)
    rw [show unnumbered body' = unnumbered body from hb]

theorem varDeclaration_read (hstart : firstKind ts = .varKw) (hts : ts ≠ [])
    (h : VarDeclarationRead fits ts d) : DeclarationRead fits ts d := by
  intro n r us hr ha _
  cases n with
  | zero => exact tooFew_zero (by decide)
  | succ n =>
    have hkind : r.cursor.kind = .varKw := by
      rw [kind_eq_of_ahead ha, firstKind_append us hts, hstart]
    rw [unguarded, Action.bind_ok (rfl : kind r = _), hkind]
    refine (h n r us hr ha).steps ?_
    unfold TooFew
    omega

theorem statement_eq_expressionStatement (n : Nat) {r : Reading}
    (hk : r.cursor.kind.startsStatement = false) :
    statement (n + 1) r = expressionStatement n r := by
  rw [statement, Action.bind_ok (rfl : kind r = _)]
  cases hc : r.cursor.kind <;> first | rfl | (rw [hc] at hk; cases hk)

theorem unguarded_eq_statement (n : Nat) {r : Reading}
    (hk : r.cursor.kind.startsDeclaration = false) : unguarded (n + 1) r = statement n r := by
  rw [unguarded, Action.bind_ok (rfl : kind r = _)]
  cases hc : r.cursor.kind <;> first | rfl | (rw [hc] at hk; cases hk)

/-- A `fun` that starts a statement starts an expression: no name is next. -/
theorem unguarded_eq_expressionStatement (n : Nat) {r : Reading} (hk : r.cursor.kind = .funKw)
    (hn : r.cursor.nextKind ≠ .identifier) : unguarded (n + 1) r = expressionStatement n r := by
  rw [unguarded, Action.bind_ok (rfl : kind r = _), hk]
  show (nextKind >>= fun k => if k = .identifier then _ else _) r = _
  rw [Action.bind_ok (rfl : nextKind r = _), if_neg hn]

theorem statementDeclaration_read {dangling : Bool} (hs : StartsStatement ts)
    (h : StatementRead fits dangling ts d) : DeclarationRead fits ts d := by
  intro n r us hr ha hus
  have hts : ts ≠ [] := by
    rintro rfl
    rcases hs with hs | hs
    · cases hs
    · exact hs.ne_nil rfl
  have hkind : r.cursor.kind = firstKind ts := by
    rw [kind_eq_of_ahead ha, firstKind_append us hts]
  cases n with
  | zero => exact tooFew_zero (by decide)
  | succ n =>
    by_cases hfun : r.cursor.kind = .funKw
    · have hstart : StartsExpression (ts ++ us) := by
        rcases hs with hs | hs
        · rw [← hkind, hfun] at hs
          cases hs
        · exact hs.append us
      have hnext : r.cursor.nextKind ≠ .identifier := by
        rw [Cursor.nextKind_eq (by rw [hfun]; decide), ha,
          hstart.2 ((kind_eq_of_ahead ha).symm.trans hfun)]
        decide
      rw [unguarded_eq_expressionStatement n hfun hnext,
        ← statement_eq_expressionStatement n (by rw [hfun]; rfl)]
      refine (h (n + 1) r us hr ha fun _ => hus).steps ?_
      unfold TooFew
      omega
    · have hdecl : r.cursor.kind.startsDeclaration = false := by
        rw [hkind] at hfun ⊢
        rcases hs with hs | hs
        · cases hk : firstKind ts <;> first | rfl | (rw [hk] at hs; cases hs)
        · have hstart := hs.1
          cases hk : firstKind ts <;>
            first | rfl | exact absurd hk hfun | (rw [hk] at hstart; cases hstart)
      rw [unguarded_eq_statement n hdecl]
      refine (h n r us hr ha fun _ => hus).steps ?_
      unfold TooFew
      omega

theorem unset_read (keyword : Token) {name semicolon : Token}
    (hn : name.kind = .identifier) (hs : semicolon.kind = .semicolon) :
    VarDeclarationRead fits [keyword, name, semicolon] (.var name none) := by
  intro n r us hr ha
  simp only [List.cons_append, List.nil_append] at ha
  cases n with
  | zero => exact tooFew_zero (by decide)
  | succ n =>
    rw [varDeclaration]
    refine advance_bind fits hr ha fun s hs' => ?_
    refine expect_bind fits hs'.closed hs'.ahead hn fun t ht => ?_
    have hno : t.cursor.kind ≠ .assignment := by
      rw [kind_eq_of_ahead ht.ahead, firstKind_cons, hs]
      decide
    rw [Action.bind_ok (behind?_none hno)]
    exact expect_bind fits ht.closed ht.ahead hs fun u hu => ⟨(hs'.trans ht).trans hu, rfl⟩

theorem set_read (keyword : Token) {name equals semicolon : Token}
    (hn : name.kind = .identifier) (heq : equals.kind = .assignment)
    (hs : semicolon.kind = .semicolon) (h : ExpressionRead fits .assignment ts e) :
    VarDeclarationRead fits (keyword :: name :: equals :: (ts ++ [semicolon]))
      (.var name (some e)) := by
  intro n r us hr ha
  simp only [List.cons_append, List.append_assoc] at ha
  cases n with
  | zero => exact tooFew_zero (by decide)
  | succ n =>
    rw [varDeclaration]
    refine advance_bind fits hr ha fun s hs' => ?_
    refine expect_bind fits hs'.closed hs'.ahead hn fun t ht => ?_
    refine behind?_bind fits ht.closed ht.ahead heq fun u hu => ?_
    refine Action.meets_bind.1 (h.ended hu.closed hu.ahead hs rfl ?_ fun e' v hv he => ?_)
    · exact TooFew.behind ha hu.ahead (by simp only [List.length_cons]; omega) (by decide)
    · exact ⟨((hs'.trans ht).trans hu).trans hv, congrArg (Stmt.var name ∘ some) he⟩

/-! ## Statements -/

theorem expressionStatement_read {semicolon : Token} (hs : semicolon.kind = .semicolon)
    (h : ExpressionRead fits .assignment ts e) :
    ExpressionStatementRead fits (ts ++ [semicolon]) (.expression e) := by
  intro n r us hr ha
  rw [List.append_assoc, List.singleton_append] at ha
  cases n with
  | zero => exact tooFew_zero (by decide)
  | succ n =>
    rw [expressionStatement]
    refine h.ended hr ha hs rfl ?_ fun e' s hs' he => ⟨hs', congrArg Stmt.expression he⟩
    unfold TooFew
    omega

theorem clause_none : ClauseRead fits [] none := by
  intro n r k us hr ha hus _ _
  rw [before?_none ((kind_eq_of_ahead ha).trans hus)]
  exact ⟨Reaches.refl hr ha, rfl⟩

theorem clause_some (hstart : StartsExpression ts) (h : ExpressionRead fits .assignment ts e) :
    ClauseRead fits ts (some e) := by
  intro n r k us hr ha hus hpower hk
  have hne : r.cursor.kind ≠ k := by
    rw [kind_eq_of_ahead ha]
    exact (hstart.append us).firstKind_ne hk
  have hstop : (firstKind us).power.level ≤ Power.none.level := by
    exact Nat.le_of_eq (by rw [hus, hpower])
  rw [before?_some hne]
  refine Action.succeeds_bind (h.stops hr ha (Nat.le_refl _) hstop) id ?_
  rintro e' s ⟨hs, he⟩
  refine ⟨hs, ?_⟩
  show some e'.unnumbered = some e.unnumbered
  rw [he]

theorem plain_read (hstart : StartsExpression ts) (h : ExpressionStatementRead fits ts d) :
    StatementRead fits false ts d := by
  intro n r us hr ha _
  cases n with
  | zero => exact tooFew_zero (by decide)
  | succ n =>
    have hk : r.cursor.kind.startsStatement = false := by
      have hs := (hstart.append us).1
      rw [kind_eq_of_ahead ha]
      cases hc : firstKind (ts ++ us) <;> first | rfl | (rw [hc] at hs; cases hs)
    rw [statement_eq_expressionStatement n hk]
    refine (h n r us hr ha).steps ?_
    unfold TooFew
    omega

theorem print_read {keyword semicolon : Token} (hk : keyword.kind = .printKw)
    (hs : semicolon.kind = .semicolon) (h : ExpressionRead fits .assignment ts e) :
    StatementRead fits false (keyword :: (ts ++ [semicolon])) (.print keyword e) := by
  intro n r us hr ha _
  rw [List.cons_append, List.append_assoc, List.singleton_append] at ha
  cases n with
  | zero => exact tooFew_zero (by decide)
  | succ n =>
    rw [statement, Action.bind_ok (rfl : kind r = _), kind_eq_of_ahead ha, firstKind_cons, hk]
    refine advance_bind fits hr ha fun s hs' => ?_
    refine h.ended hs'.closed hs'.ahead hs rfl
      (TooFew.behind ha hs'.ahead (Nat.lt_succ_self _) (by decide)) fun e' t ht he => ?_
    exact ⟨hs'.trans ht, congrArg (Stmt.print keyword) he⟩

theorem return_read {keyword semicolon : Token} {value : Option Expr}
    (hk : keyword.kind = .returnKw) (hs : semicolon.kind = .semicolon)
    (h : ClauseRead fits ts value) :
    StatementRead fits false (keyword :: (ts ++ [semicolon])) (.return keyword value) := by
  intro n r us hr ha _
  rw [List.cons_append, List.append_assoc, List.singleton_append] at ha
  cases n with
  | zero => exact tooFew_zero (by decide)
  | succ n =>
    rw [statement, Action.bind_ok (rfl : kind r = _), kind_eq_of_ahead ha, firstKind_cons, hk]
    refine advance_bind fits hr ha fun s hs' => ?_
    refine Action.succeeds_bind (h n s .semicolon (semicolon :: us) hs'.closed hs'.ahead hs rfl rfl)
      (TooFew.behind ha hs'.ahead (Nat.lt_succ_self _) (by decide)) ?_
    rintro o t ⟨ht, he⟩
    refine expect_bind fits ht.closed ht.ahead hs fun u hu => ⟨(hs'.trans ht).trans hu, ?_⟩
    show Stmt.return keyword (Expr.unnumberedOption o) =
      .return keyword (Expr.unnumberedOption value)
    rw [he]

theorem block_read {opening closing : Token} (ho : opening.kind = .openCurly)
    (hc : closing.kind = .closeCurly) (h : BlockRead fits ts body) :
    StatementRead fits false (opening :: (ts ++ [closing])) (.block body) := by
  intro n r us hr ha _
  rw [List.cons_append, List.append_assoc, List.singleton_append] at ha
  cases n with
  | zero => exact tooFew_zero (by decide)
  | succ n =>
    rw [statement, Action.bind_ok (rfl : kind r = _), kind_eq_of_ahead ha, firstKind_cons, ho]
    refine advance_bind fits hr ha fun s hs => ?_
    refine Action.succeeds_bind (h n s closing us hs.closed hs.ahead hc)
      (TooFew.behind ha hs.ahead (Nat.lt_succ_self _) (by decide)) ?_
    rintro body' t ⟨ht, hb⟩
    refine ⟨hs.trans ht, ?_⟩
    show Stmt.block (unnumbered body') = .block (unnumbered body)
    rw [show unnumbered body' = unnumbered body from hb]

/-- The condition of a statement, in parentheses behind its keyword. -/
theorem guard_bind {β : Type} {keyword opening closing : Token} {cs vs : List Token}
    {expectation expectation' : String} {f : Expr → Read β} {good : β → Reading → Prop} {n : Nat}
    {r : Reading} (ho : opening.kind = .openParen) (hc : closing.kind = .closeParen)
    (h : ExpressionRead fits .assignment cs c) (hr : r.cursor.Closed)
    (ha : r.cursor.ahead = keyword :: opening :: (cs ++ closing :: vs))
    (hf : ∀ c' s, Reaches fits r s vs → c'.unnumbered = c.unnumbered →
      (f c' s).Succeeds good (TooFew (n + 1) r 5)) :
    ((advance >>= fun _ => expect .openParen expectation >>= fun _ => expr n .none >>= fun c =>
        expect .closeParen expectation' >>= fun _ => f c) r).Succeeds good (TooFew (n + 1) r 5) := by
  refine advance_bind fits hr ha fun s hs => ?_
  refine expect_bind fits hs.closed hs.ahead ho fun t ht => ?_
  refine h.ended ht.closed ht.ahead hc rfl
    (TooFew.behind ha ht.ahead (by simp only [List.length_cons]; omega) (by decide)) ?_
  exact fun c' u hu he => hf c' u ((hs.trans ht).trans hu) he

theorem while_read {keyword opening closing : Token} {cs : List Token} {dangling : Bool}
    (hk : keyword.kind = .whileKw) (ho : opening.kind = .openParen)
    (hc : closing.kind = .closeParen) (hcs : ExpressionRead fits .assignment cs c)
    (h : StatementRead fits dangling ts d) :
    StatementRead fits dangling (keyword :: opening :: (cs ++ closing :: ts)) (.while c d) := by
  intro n r us hr ha hus
  simp only [List.cons_append, List.append_assoc] at ha
  cases n with
  | zero => exact tooFew_zero (by decide)
  | succ n =>
    rw [statement, Action.bind_ok (rfl : kind r = _), kind_eq_of_ahead ha, firstKind_cons, hk]
    refine guard_bind ho hc hcs hr ha ?_
    intro c' s hs he
    refine Action.succeeds_bind (h n s us hs.closed hs.ahead hus)
      (TooFew.behind ha hs.ahead ?_ (by decide)) ?_
    · simp only [List.length_append, List.length_cons]
      omega
    rintro d' t ⟨ht, hd⟩
    refine ⟨hs.trans ht, ?_⟩
    show Stmt.while c'.unnumbered d'.unnumbered = .while c.unnumbered d.unnumbered
    rw [he, hd]

theorem ifThen_read {keyword opening closing : Token} {cs : List Token} {dangling : Bool}
    (hk : keyword.kind = .ifKw) (ho : opening.kind = .openParen)
    (hc : closing.kind = .closeParen) (hcs : ExpressionRead fits .assignment cs c)
    (h : StatementRead fits dangling ts d) :
    StatementRead fits true (keyword :: opening :: (cs ++ closing :: ts)) (.ifElse c d none) := by
  intro n r us hr ha hus
  simp only [List.cons_append, List.append_assoc] at ha
  cases n with
  | zero => exact tooFew_zero (by decide)
  | succ n =>
    rw [statement, Action.bind_ok (rfl : kind r = _), kind_eq_of_ahead ha, firstKind_cons, hk]
    refine guard_bind ho hc hcs hr ha ?_
    intro c' s hs he
    refine Action.succeeds_bind (h n s us hs.closed hs.ahead fun _ => hus rfl)
      (TooFew.behind ha hs.ahead ?_ (by decide)) ?_
    · simp only [List.length_append, List.length_cons]
      omega
    rintro d' t ⟨ht, hd⟩
    have helse : t.cursor.kind ≠ .elseKw := by
      rw [kind_eq_of_ahead ht.ahead]
      exact hus rfl
    rw [Action.bind_ok (behind?_none helse)]
    refine ⟨hs.trans ht, ?_⟩
    show Stmt.ifElse c'.unnumbered d'.unnumbered none = .ifElse c.unnumbered d.unnumbered none
    rw [he, hd]

theorem ifElse_read {keyword opening closing otherwise : Token} {cs vs : List Token} {d' : Stmt}
    {dangling : Bool} (hk : keyword.kind = .ifKw) (ho : opening.kind = .openParen)
    (hc : closing.kind = .closeParen) (helse : otherwise.kind = .elseKw)
    (hcs : ExpressionRead fits .assignment cs c) (h : StatementRead fits false ts d)
    (h' : StatementRead fits dangling vs d') :
    StatementRead fits dangling
      (keyword :: opening :: (cs ++ closing :: (ts ++ otherwise :: vs)))
      (.ifElse c d (some d')) := by
  intro n r us hr ha hus
  simp only [List.cons_append, List.append_assoc] at ha
  cases n with
  | zero => exact tooFew_zero (by decide)
  | succ n =>
    rw [statement, Action.bind_ok (rfl : kind r = _), kind_eq_of_ahead ha, firstKind_cons, hk]
    refine guard_bind ho hc hcs hr ha ?_
    intro e s hs he
    refine Action.succeeds_bind (h n s _ hs.closed hs.ahead fun hf => (Bool.false_ne_true hf).elim)
      (TooFew.behind ha hs.ahead ?_ (by decide)) ?_
    · simp only [List.length_append, List.length_cons]
      omega
    rintro b t ⟨ht, hb⟩
    refine behind?_bind fits ht.closed ht.ahead helse fun u hu => ?_
    refine (h' n u us hu.closed hu.ahead hus).mono ?_ (fun _ _ => id) ?_
    · rintro b' v ⟨hv, hb'⟩
      refine ⟨((hs.trans ht).trans hu).trans hv, ?_⟩
      show Stmt.ifElse e.unnumbered b.unnumbered (some b'.unnumbered) =
        .ifElse c.unnumbered d.unnumbered (some d'.unnumbered)
      rw [he, hb, hb']
    · refine TooFew.behind ha hu.ahead ?_ (by decide)
      simp only [List.length_append, List.length_cons]
      omega

theorem initializer_none {semicolon : Token} (hs : semicolon.kind = .semicolon) :
    InitializerRead fits [semicolon] none := by
  intro n r us hr ha
  rw [List.singleton_append] at ha
  cases n with
  | zero => exact tooFew_zero (by decide)
  | succ n =>
    rw [initializer, Action.bind_ok (rfl : kind r = _), kind_eq_of_ahead ha, firstKind_cons, hs]
    exact advance_bind fits hr ha fun s hs' => ⟨hs', rfl⟩

theorem initializer_var (hstart : firstKind ts = .varKw) (hts : ts ≠ [])
    (h : VarDeclarationRead fits ts d) : InitializerRead fits ts (some d) := by
  intro n r us hr ha
  cases n with
  | zero => exact tooFew_zero (by decide)
  | succ n =>
    rw [initializer, Action.bind_ok (rfl : kind r = _), kind_eq_of_ahead ha,
      firstKind_append us hts, hstart]
    refine Action.succeeds_bind (h n r us hr ha) (by unfold TooFew; omega) ?_
    rintro d' s ⟨hs, hd⟩
    refine ⟨hs, ?_⟩
    show some d'.unnumbered = some d.unnumbered
    rw [hd]

theorem initializer_expression (hstart : StartsExpression ts)
    (h : ExpressionStatementRead fits ts d) : InitializerRead fits ts (some d) := by
  intro n r us hr ha
  cases n with
  | zero => exact tooFew_zero (by decide)
  | succ n =>
    have hread : initializer (n + 1) r = (expressionStatement n >>= fun d => pure (some d)) r := by
      have hs := (hstart.append us).1
      rw [initializer, Action.bind_ok (rfl : kind r = _), kind_eq_of_ahead ha]
      cases hc : firstKind (ts ++ us) <;> first | rfl | (rw [hc] at hs; cases hs)
    rw [hread]
    refine Action.succeeds_bind (h n r us hr ha) (by unfold TooFew; omega) ?_
    rintro d' s ⟨hs, hd⟩
    refine ⟨hs, ?_⟩
    show some d'.unnumbered = some d.unnumbered
    rw [hd]

theorem unnumbered_forLoop (i : Option Stmt) (c e : Option Expr) (d : Stmt) :
    (forLoop i c e d).unnumbered = forLoop (Stmt.unnumberedOption i) (Expr.unnumberedOption c)
      (Expr.unnumberedOption e) d.unnumbered := by
  cases i <;> cases c <;> cases e <;> rfl

theorem for_read {keyword opening semicolon closing : Token} {is cs es : List Token}
    {i : Option Stmt} {c e : Option Expr} {dangling : Bool} (hk : keyword.kind = .forKw)
    (ho : opening.kind = .openParen) (hs : semicolon.kind = .semicolon)
    (hc : closing.kind = .closeParen) (his : InitializerRead fits is i)
    (hcs : ClauseRead fits cs c) (hes : ClauseRead fits es e)
    (h : StatementRead fits dangling ts d) :
    StatementRead fits dangling
      (keyword :: opening :: (is ++ (cs ++ semicolon :: (es ++ closing :: ts))))
      (forLoop i c e d) := by
  intro n r us hr ha hus
  simp only [List.cons_append, List.append_assoc] at ha
  have hlen := congrArg List.length ha
  simp only [List.length_append, List.length_cons] at hlen
  cases n with
  | zero => exact tooFew_zero (by decide)
  | succ n =>
  rw [statement, Action.bind_ok (rfl : kind r = _), kind_eq_of_ahead ha, firstKind_cons, hk]
  show (forStatement n r).Succeeds _ _
  cases n with
  | zero =>
    show TooFew 1 r 5
    unfold TooFew
    omega
  | succ n =>
    rw [forStatement]
    refine advance_bind fits hr ha fun s hs' => ?_
    refine expect_bind fits hs'.closed hs'.ahead ho fun t ht => ?_
    refine Action.succeeds_bind (his n t _ ht.closed ht.ahead) ?_ ?_
    · unfold TooFew
      simp only [ht.ahead, List.length_append, List.length_cons]
      omega
    rintro i' u ⟨hu, hi⟩
    refine Action.succeeds_bind (hcs n u .semicolon _ hu.closed hu.ahead hs rfl rfl) ?_ ?_
    · unfold TooFew
      simp only [hu.ahead, List.length_append, List.length_cons]
      omega
    rintro c' v ⟨hv, hc'⟩
    refine expect_bind fits hv.closed hv.ahead hs fun w hw => ?_
    refine Action.succeeds_bind (hes n w .closeParen _ hw.closed hw.ahead hc rfl rfl) ?_ ?_
    · unfold TooFew
      simp only [hw.ahead, List.length_append, List.length_cons]
      omega
    rintro e' x ⟨hx, he⟩
    refine expect_bind fits hx.closed hx.ahead hc fun y hy => ?_
    refine Action.succeeds_bind (h n y us hy.closed hy.ahead hus) ?_ ?_
    · unfold TooFew
      simp only [hy.ahead, List.length_append]
      omega
    rintro d' z ⟨hz, hd⟩
    refine ⟨((((((hs'.trans ht).trans hu).trans hv).trans hw).trans hx).trans hy).trans hz, ?_⟩
    show (loopOf i' c' e' d').unnumbered = _
    rw [loopOf_eq, unnumbered_forLoop, unnumbered_forLoop, hi, hc', he, hd]

end LoxLang.Read
