import LoxLang.Proofs.Syntax.Arrival
import LoxLang.Proofs.Syntax.Starts

/-!
What is derived is read.

In front of tokens that cannot belong to it, every expression, statement and declaration that the
grammar derives is read, up to the numbers of its nodes, and reading arrives just behind it.  There
is a predicate for each category (`ExpressionRead` and so on), a lemma for each rule of the grammar,
and the induction on derivations that puts them together (`expression_read` and so on).

An expression is not read in one go: operators of one level are read in a loop, from the left.
`ExpressionRead` therefore says how a reading of an expression goes on once the loop has an
expression of the level on its left side.
-/

namespace LoxLang.Read

open Grammar Reading Outcome

variable {fits : Nat → Prop}

/-! ## Categories -/

/-- Reading with a power that the level allows comes to have the expression as its left side. -/
def ExpressionRead (fits : Nat → Prop) (level : Level) (ts : List Token) (e : Expr) : Prop :=
  ∀ n p r us, r.cursor.Closed → r.cursor.ahead = ts ++ us → p.operand.rank ≤ level.rank →
    (firstKind us).power.level ≤ level.power.level → ∀ good short, (TooFew n r 3 → short) →
    (∀ m s e', n ≤ m + ts.length + 1 → Reaches fits r s us → e'.unnumbered = e.unnumbered →
      (continuations m p e' s).Succeeds good short) →
    (expr n p r).Succeeds good short

def ArgumentsRead (fits : Nat → Prop) (ts : List Token) (es : List Expr) : Prop :=
  ∀ n count r us, r.cursor.Closed → r.cursor.ahead = ts ++ us → firstKind us = .closeParen →
    fits (count + es.length) →
    (arguments n count r).Succeeds
      (fun es' s => Reaches fits r s us ∧ Expr.unnumberedAll es' = Expr.unnumberedAll es)
      (TooFew n r 4)

/-- The list may be missing. -/
def ArgumentListRead (fits : Nat → Prop) (ts : List Token) (es : List Expr) : Prop :=
  ∀ n r us, r.cursor.Closed → r.cursor.ahead = ts ++ us → firstKind us = .closeParen →
    fits es.length →
    (before? .closeParen (arguments n 0) r).Succeeds
      (fun o s => Reaches fits r s us ∧ Expr.unnumberedAll (o.getD []) = Expr.unnumberedAll es)
      (TooFew n r 4)

def FunctionRead (fits : Nat → Prop) (ts params : List Token) (body : List Stmt) : Prop :=
  ∀ n r us, r.cursor.Closed → r.cursor.ahead = ts ++ us →
    (functionRest n r).Succeeds
      (fun f s => Reaches fits r s us ∧ f.1 = params ∧ unnumbered f.2 = unnumbered body)
      (TooFew n r 1)

/-- The declarations of a block, and its closing brace. -/
def BlockRead (fits : Nat → Prop) (ts : List Token) (body : List Stmt) : Prop :=
  ∀ n r closing us, r.cursor.Closed → r.cursor.ahead = ts ++ closing :: us →
    closing.kind = .closeCurly →
    (blockRest n r).Succeeds
      (fun ss s => Reaches fits r s us ∧ unnumbered ss = unnumbered body) (TooFew n r 8)

/-- The declarations of a program. -/
def ProgramRead (fits : Nat → Prop) (ts : List Token) (body : List Stmt) : Prop :=
  ∀ n r, r.cursor.Closed → r.cursor.ahead = ts →
    (declarations n r).Succeeds
      (fun ss s => Reaches fits r s [] ∧ unnumbered ss = unnumbered body) (TooFew n r 8)

def DeclarationRead (fits : Nat → Prop) (ts : List Token) (d : Stmt) : Prop :=
  ∀ n r us, r.cursor.Closed → r.cursor.ahead = ts ++ us → firstKind us ≠ .elseKw →
    (unguarded n r).Succeeds
      (fun d' s => Reaches fits r s us ∧ d'.unnumbered = d.unnumbered) (TooFew n r 6)

def VarDeclarationRead (fits : Nat → Prop) (ts : List Token) (d : Stmt) : Prop :=
  ∀ n r us, r.cursor.Closed → r.cursor.ahead = ts ++ us →
    (varDeclaration n r).Succeeds
      (fun d' s => Reaches fits r s us ∧ d'.unnumbered = d.unnumbered) (TooFew n r 1)

def ExpressionStatementRead (fits : Nat → Prop) (ts : List Token) (d : Stmt) : Prop :=
  ∀ n r us, r.cursor.Closed → r.cursor.ahead = ts ++ us →
    (expressionStatement n r).Succeeds
      (fun d' s => Reaches fits r s us ∧ d'.unnumbered = d.unnumbered) (TooFew n r 4)

def ClauseRead (fits : Nat → Prop) (ts : List Token) (o : Option Expr) : Prop :=
  ∀ n r k us, r.cursor.Closed → r.cursor.ahead = ts ++ us → firstKind us = k →
    k.power = .none → k.startsExpression = false →
    (before? k (expr n .none) r).Succeeds
      (fun o' s => Reaches fits r s us ∧ Expr.unnumberedOption o' = Expr.unnumberedOption o)
      (TooFew n r 3)

def InitializerRead (fits : Nat → Prop) (ts : List Token) (o : Option Stmt) : Prop :=
  ∀ n r us, r.cursor.Closed → r.cursor.ahead = ts ++ us →
    (initializer n r).Succeeds
      (fun o' s => Reaches fits r s us ∧ Stmt.unnumberedOption o' = Stmt.unnumberedOption o)
      (TooFew n r 5)

def StatementRead (fits : Nat → Prop) (dangling : Bool) (ts : List Token) (d : Stmt) : Prop :=
  ∀ n r us, r.cursor.Closed → r.cursor.ahead = ts ++ us →
    (dangling = true → firstKind us ≠ .elseKw) →
    (statement n r).Succeeds
      (fun d' s => Reaches fits r s us ∧ d'.unnumbered = d.unnumbered) (TooFew n r 5)

/-! ## Expressions -/

variable {ts os us : List Token} {e l : Expr} {level : Level}

/-- In front of a token that binds no more tightly, the expression is all that is read. -/
theorem ExpressionRead.stops (h : ExpressionRead fits level ts e) {n : Nat} {p : Power}
    {r : Reading} (hr : r.cursor.Closed) (ha : r.cursor.ahead = ts ++ us)
    (hp : p.operand.rank ≤ level.rank) (hus : (firstKind us).power.level ≤ p.level) :
    (expr n p r).Succeeds
      (fun e' s => Reaches fits r s us ∧ e'.unnumbered = e.unnumbered) (TooFew n r 3) := by
  have hle := Power.level_le_of_operand_rank_le hp
  refine h n p r us hr ha hp (Nat.le_trans hus hle) _ _ id ?_
  intro m s e' hm hs he
  cases m with
  | zero =>
    show TooFew n r 3
    have hl := congrArg List.length ha
    rw [List.length_append] at hl
    unfold TooFew
    omega
  | succ m =>
    rw [continuations, Action.bind_ok (rfl : kind s = _), if_neg]
    · exact ⟨hs, he⟩
    · rw [kind_eq_of_ahead hs.ahead]
      exact Nat.not_lt.2 hus

/-- An expression, and the token behind it that ends it. -/
theorem ExpressionRead.ended {β : Type} {closing : Token} {k : Kind} {expectation : String}
    {f : Expr → Read β} {good : β → Reading → Prop} {short : Prop} {n : Nat} {r : Reading}
    (h : ExpressionRead fits .assignment ts e) (hr : r.cursor.Closed)
    (ha : r.cursor.ahead = ts ++ closing :: us) (hc : closing.kind = k) (hk : k.power = .none)
    (hshort : TooFew n r 3 → short)
    (hf : ∀ e' s, Reaches fits r s us → e'.unnumbered = e.unnumbered →
      (f e' s).Succeeds good short) :
    ((expr n .none >>= fun e => expect k expectation >>= fun _ => f e) r).Succeeds good short := by
  have hstop : (firstKind (closing :: us)).power.level ≤ Power.none.level :=
    Nat.le_of_eq (by rw [firstKind_cons, hc, hk])
  refine Action.succeeds_bind (h.stops hr ha (Nat.le_refl _) hstop) hshort ?_
  rintro e' s ⟨hs, he⟩
  exact expect_bind fits hs.closed hs.ahead hc fun t ht => hf e' t (hs.trans ht) he

/-- An operand is read at once. -/
theorem expressionRead_of_operand
    (h : ∀ n r us, r.cursor.Closed → r.cursor.ahead = ts ++ us →
      (firstKind us).power.level ≤ level.power.level →
      (operand n r).Succeeds
        (fun e' s => Reaches fits r s us ∧ e'.unnumbered = e.unnumbered) (TooFew n r 1)) :
    ExpressionRead fits level ts e := by
  intro n p r us hr ha _ hus good short hshort hk
  cases n with
  | zero =>
    refine hshort ?_
    unfold TooFew
    omega
  | succ n =>
    rw [expr]
    refine Action.succeeds_bind (h n r us hr ha hus) ?_ ?_
    · intro hn
      refine hshort ?_
      unfold TooFew at *
      omega
    · rintro e' s ⟨hs, he⟩
      exact hk n s e' (by omega) hs he

/-- What continues an expression, in one turn of the loop. -/
theorem expressionRead_of_continuation {left : Level} (hl : ExpressionRead fits left ts l)
    (hleft : level.rank ≤ left.rank) (hos : os ≠ [])
    (hpower : (firstKind os).power.level ≤ left.power.level)
    (hlt : ∀ p : Power, p.operand.rank ≤ level.rank → p.level < (firstKind os).power.level)
    (h : ∀ n s us l', s.cursor.Closed → s.cursor.ahead = os ++ us →
      (firstKind us).power.level ≤ level.power.level → l'.unnumbered = l.unnumbered →
      (continuation n (firstKind os) l' s).Succeeds
        (fun e' t => Reaches fits s t us ∧ e'.unnumbered = e.unnumbered) (TooFew n s 1)) :
    ExpressionRead fits level (ts ++ os) e := by
  intro n p r us hr ha hp hus good short hshort hk
  have hlen := congrArg List.length ha
  have hpos := List.length_pos_iff.2 hos
  simp only [List.length_append] at hlen
  refine hl n p r (os ++ us) hr (ha.trans (List.append_assoc _ _ _)) (Nat.le_trans hp hleft) ?_
    good short hshort ?_
  · rwa [firstKind_append us hos]
  intro m s l' hm hs hl'
  have hlen' := congrArg List.length hs.ahead
  rw [List.length_append] at hlen'
  cases m with
  | zero =>
    refine hshort ?_
    unfold TooFew
    omega
  | succ m =>
    have hkind : s.cursor.kind = firstKind os := by
      rw [kind_eq_of_ahead hs.ahead, firstKind_append us hos]
    rw [continuations, Action.bind_ok (rfl : kind s = _), hkind, if_pos (hlt p hp)]
    refine Action.succeeds_bind (h m s us l' hs.closed hs.ahead hus hl') ?_ ?_
    · intro hm'
      refine hshort ?_
      unfold TooFew at *
      omega
    · rintro e' t ⟨ht, he⟩
      refine hk m t e' ?_ (hs.trans ht) he
      rw [List.length_append]
      omega

theorem expressionRead_tighter (h : ExpressionRead fits level.next ts e) :
    ExpressionRead fits level ts e := by
  intro n p r us hr ha hp hus good short hshort hk
  exact h n p r us hr ha (Nat.le_trans hp level.rank_le_next)
    (Nat.le_trans hus level.power_le_next) good short hshort hk

/-- A token that is an expression by itself. -/
theorem leaf_read {t : Token} {f : Token → Expr}
    (h : ∀ n r, r.cursor.kind = t.kind → operand (n + 1) r = (advance >>= fun t => pure (f t)) r) :
    ExpressionRead fits level [t] (f t) := by
  refine expressionRead_of_operand ?_
  intro n r us hr ha _
  cases n with
  | zero => exact tooFew_zero (by decide)
  | succ n =>
    rw [h n r (kind_eq_of_ahead ha)]
    exact advance_bind fits hr ha fun s hs => ⟨hs, rfl⟩

theorem name_read {name : Token} (id : NodeId) (hn : name.kind = .identifier) :
    ExpressionRead fits level [name] (.read id name) := by
  refine expressionRead_of_operand ?_
  intro n r us hr ha _
  rw [List.singleton_append] at ha
  cases n with
  | zero => exact tooFew_zero (by decide)
  | succ n =>
    rw [operand, Action.bind_ok (rfl : kind r = _), kind_eq_of_ahead ha, firstKind_cons, hn]
    refine advance_bind fits hr ha fun s hs => ?_
    rw [Action.bind_ok (rfl : freshId s = _)]
    exact ⟨⟨hs.closed, hs.ahead, hs.faults⟩, rfl⟩

theorem unary_read {operator : Token} (ho : operator.kind = .not ∨ operator.kind = .dash)
    (h : ExpressionRead fits .unary ts e) :
    ExpressionRead fits .unary (operator :: ts) (.unary operator e) := by
  refine expressionRead_of_operand ?_
  intro n r us hr ha hus
  rw [List.cons_append] at ha
  cases n with
  | zero => exact tooFew_zero (by decide)
  | succ n =>
    have hop : operand (n + 1) r = (advance >>= fun operator => expr n .unary >>= fun e =>
        (pure (.unary operator e) : Read Expr)) r := by
      rw [operand, Action.bind_ok (rfl : kind r = _), kind_eq_of_ahead ha, firstKind_cons]
      rcases ho with ho | ho
      · rw [ho]
      · rw [ho]
    rw [hop]
    refine advance_bind fits hr ha fun s hs => ?_
    refine Action.succeeds_bind (h.stops hs.closed hs.ahead (Nat.le_refl _) hus)
      (TooFew.behind ha hs.ahead (Nat.lt_succ_self _) (by decide)) ?_
    rintro e' t ⟨ht, he⟩
    refine ⟨hs.trans ht, ?_⟩
    show Expr.unary operator e'.unnumbered = .unary operator e.unnumbered
    rw [he]

theorem grouping_read {opening closing : Token} (ho : opening.kind = .openParen)
    (hc : closing.kind = .closeParen) (h : ExpressionRead fits .assignment ts e) :
    ExpressionRead fits level (opening :: (ts ++ [closing])) (.grouping e) := by
  refine expressionRead_of_operand ?_
  intro n r us hr ha _
  rw [List.cons_append, List.append_assoc, List.singleton_append] at ha
  cases n with
  | zero => exact tooFew_zero (by decide)
  | succ n =>
    rw [operand, Action.bind_ok (rfl : kind r = _), kind_eq_of_ahead ha, firstKind_cons, ho]
    refine advance_bind fits hr ha fun s hs => ?_
    refine h.ended hs.closed hs.ahead hc rfl
      (TooFew.behind ha hs.ahead (Nat.lt_succ_self _) (by decide)) fun e' t ht he => ?_
    exact ⟨hs.trans ht, congrArg Expr.grouping he⟩

theorem lambda_read {keyword : Token} {params : List Token} {body : List Stmt}
    (hk : keyword.kind = .funKw) (h : FunctionRead fits ts params body) :
    ExpressionRead fits level (keyword :: ts) (.function keyword params body) := by
  refine expressionRead_of_operand ?_
  intro n r us hr ha _
  rw [List.cons_append] at ha
  cases n with
  | zero => exact tooFew_zero (by decide)
  | succ n =>
    rw [operand, Action.bind_ok (rfl : kind r = _), kind_eq_of_ahead ha, firstKind_cons, hk]
    refine advance_bind fits hr ha fun s hs => ?_
    refine Action.succeeds_bind (h n s us hs.closed hs.ahead)
      (TooFew.behind ha hs.ahead (Nat.lt_succ_self _) (by decide)) ?_
    rintro ⟨params', body'⟩ t ⟨ht, rfl, hb⟩
    refine ⟨hs.trans ht, ?_⟩
    show Expr.function keyword (params'.map id) (unnumbered body') =
      .function keyword (params'.map id) (unnumbered body)
    rw [show unnumbered body' = unnumbered body from hb]

theorem assign_read {name equals : Token} (id : NodeId) (hn : name.kind = .identifier)
    (heq : equals.kind = .assignment) (h : ExpressionRead fits .assignment ts e) :
    ExpressionRead fits .assignment (name :: equals :: ts) (.assign id name e) := by
  refine expressionRead_of_continuation (name_read id hn : ExpressionRead fits .logicOr _ _)
    (by decide) (List.cons_ne_nil equals ts) ?_ ?_ ?_
  · rw [firstKind_cons, heq]
    decide
  · intro p hp
    rw [firstKind_cons, heq]
    cases p <;> first | decide | exact absurd hp (by decide)
  intro n s us l' hs ha hus hl'
  rw [List.cons_append] at ha
  cases n with
  | zero => exact tooFew_zero (by decide)
  | succ n =>
    rw [firstKind_cons, heq, continuation]
    refine advance_bind fits hs ha fun t ht => ?_
    refine Action.succeeds_bind (h.stops ht.closed ht.ahead (Nat.le_refl _) hus)
      (TooFew.behind ha ht.ahead (Nat.lt_succ_self _) (by decide)) ?_
    rintro e' u ⟨hu, he⟩
    cases l' <;> cases hl'
    show ((freshId >>= fun id => (pure (.assign id name e') : Read Expr)) u).Meets _ _ _
    rw [Action.bind_ok (rfl : freshId u = _)]
    refine ⟨(ht.trans hu).trans ⟨hu.closed, hu.ahead, (Reaches.refl hu.closed rfl).faults⟩, ?_⟩
    show Expr.assign 0 name e'.unnumbered = .assign 0 name e.unnumbered
    rw [he]

theorem operation_read {operator : Token} {rs : List Token} {right : Expr}
    (ho : operator.kind ∈ level.operators) (hl : ExpressionRead fits level ts l)
    (hr : ExpressionRead fits level.next rs right) :
    ExpressionRead fits level (ts ++ operator :: rs) (level.node l operator right) := by
  have hpower := Level.power_of_mem ho
  have hrank := Level.rank_of_mem ho
  refine expressionRead_of_continuation hl (Nat.le_refl _) (List.cons_ne_nil operator rs) ?_ ?_ ?_
  · exact Nat.le_of_eq (by rw [firstKind_cons, hpower])
  · intro p hp
    rw [firstKind_cons, hpower]
    exact Power.level_lt_of_operand_rank_le hp hrank.1 hrank.2
  intro n s us l' hs ha hus hl'
  rw [List.cons_append] at ha
  cases n with
  | zero => exact tooFew_zero (by decide)
  | succ n =>
    rw [firstKind_cons, continuation_operator ho]
    refine advance_bind fits hs ha fun t ht => ?_
    refine Action.succeeds_bind (hr.stops ht.closed ht.ahead ?_ (hpower ▸ hus))
      (TooFew.behind ha ht.ahead (Nat.lt_succ_self _) (by decide)) ?_
    · exact Nat.le_of_eq (by rw [Level.operand_of_mem ho])
    rintro e' u ⟨hu, he⟩
    refine ⟨ht.trans hu, ?_⟩
    show (level.node l' operator e').unnumbered = (level.node l operator right).unnumbered
    rw [Level.unnumbered_node, Level.unnumbered_node, hl', he]

theorem call_read {opening closing : Token} {as : List Token} {es : List Expr}
    (ho : opening.kind = .openParen) (hc : closing.kind = .closeParen)
    (hl : ExpressionRead fits .call ts l) (hargs : ArgumentListRead fits as es)
    (hfits : fits es.length) :
    ExpressionRead fits .call (ts ++ opening :: (as ++ [closing])) (.call l closing es) := by
  refine expressionRead_of_continuation hl (Nat.le_refl _)
    (List.cons_ne_nil opening (as ++ [closing])) ?_ ?_ ?_
  · rw [firstKind_cons, ho]
    decide
  · intro p hp
    rw [firstKind_cons, ho]
    cases p <;> first | decide | exact absurd hp (by decide)
  intro n s us l' hs ha _ hl'
  rw [List.cons_append, List.append_assoc, List.singleton_append] at ha
  cases n with
  | zero => exact tooFew_zero (by decide)
  | succ n =>
    rw [firstKind_cons, ho, continuation]
    refine advance_bind fits hs ha fun t ht => ?_
    refine Action.succeeds_bind (hargs n t (closing :: us) ht.closed ht.ahead hc hfits)
      (TooFew.behind ha ht.ahead (Nat.lt_succ_self _) (by decide)) ?_
    rintro o u ⟨hu, he⟩
    refine expect_bind fits hu.closed hu.ahead hc fun v hv => ⟨(ht.trans hu).trans hv, ?_⟩
    show Expr.call l'.unnumbered closing (Expr.unnumberedAll (o.getD [])) =
      .call l.unnumbered closing (Expr.unnumberedAll es)
    rw [hl', he]

/-! ## Lists -/

theorem reportExcess_reaches (count more : Nat) (cause : Cause) (hmore : 0 < more)
    (hcause : cause = .tooManyArguments ∨ cause = .tooManyParameters) (hfits : fits (count + more))
    {r : Reading} (hr : r.cursor.Closed) :
    ∃ s, reportExcess count cause r = .ok () s ∧ Reaches fits r s r.cursor.ahead := by
  refine ⟨_, reportExcess_eq count cause r, ?_⟩
  split
  · rename_i hle
    refine ⟨hr, rfl, [⟨r.cursor.current, cause⟩], rfl, ?_, ?_⟩
    · intro e he
      rw [List.mem_singleton.1 he]
      exact hcause
    · intro hf
      have := hf _ hfits
      omega
  · exact Reaches.refl hr rfl

theorem argument_read (h : ExpressionRead fits .assignment ts e) : ArgumentsRead fits ts [e] := by
  intro n count r us hr ha hus hfits
  cases n with
  | zero => exact tooFew_zero (by decide)
  | succ n =>
    obtain ⟨s, hx, hs⟩ :=
      reportExcess_reaches count 1 .tooManyArguments (by decide) (.inl rfl) hfits hr
    have hs' := hs.ahead.trans ha
    have hstop : (firstKind us).power.level ≤ Power.none.level := by
      rw [hus]
      decide
    rw [arguments, Action.bind_ok hx]
    refine Action.succeeds_bind (h.stops hs.closed hs' (Nat.le_refl _) hstop) ?_ ?_
    · unfold TooFew
      rw [hs', ha]
      omega
    rintro e' t ⟨ht, he⟩
    have hcomma : t.cursor.kind ≠ .comma := by
      rw [kind_eq_of_ahead ht.ahead, hus]
      decide
    rw [Action.bind_ok (behind?_none hcomma)]
    refine ⟨hs.trans ht, ?_⟩
    show [e'.unnumbered] = [e.unnumbered]
    rw [he]

theorem arguments_read {comma : Token} {as : List Token} {es : List Expr}
    (hc : comma.kind = .comma) (h : ExpressionRead fits .assignment ts e)
    (hes : ArgumentsRead fits as es) : ArgumentsRead fits (ts ++ comma :: as) (e :: es) := by
  intro n count r us hr ha hus hfits
  rw [List.append_assoc, List.cons_append] at ha
  rw [List.length_cons, Nat.add_comm es.length] at hfits
  cases n with
  | zero => exact tooFew_zero (by decide)
  | succ n =>
    obtain ⟨s, hx, hs⟩ := reportExcess_reaches count (1 + es.length) .tooManyArguments (by omega)
      (.inl rfl) hfits hr
    have hs' := hs.ahead.trans ha
    have hstop : (firstKind (comma :: (as ++ us))).power.level ≤ Power.none.level := by
      rw [firstKind_cons, hc]
      decide
    rw [arguments, Action.bind_ok hx]
    refine Action.succeeds_bind (h.stops hs.closed hs' (Nat.le_refl _) hstop) ?_ ?_
    · unfold TooFew
      rw [hs', ha]
      omega
    rintro e' t ⟨ht, he⟩
    refine behind?_bind fits ht.closed ht.ahead hc fun u hu => ?_
    refine (hes n (count + 1) u us hu.closed hu.ahead hus ?_).mono ?_ (fun _ _ => id) ?_
    · rwa [Nat.add_assoc]
    · rintro es' v ⟨hv, hes'⟩
      refine ⟨((hs.trans ht).trans hu).trans hv, ?_⟩
      show e'.unnumbered :: Expr.unnumberedAll es' = e.unnumbered :: Expr.unnumberedAll es
      rw [he, hes']
    · refine TooFew.behind ha hu.ahead ?_ (by decide)
      simp only [List.length_append, List.length_cons]
      omega

theorem argumentList_none : ArgumentListRead fits [] [] := by
  intro n r us hr ha hus _
  rw [before?_none ((kind_eq_of_ahead ha).trans hus)]
  exact ⟨Reaches.refl hr ha, rfl⟩

theorem argumentList_some {es : List Expr} (hs : StartsExpression ts)
    (h : ArgumentsRead fits ts es) : ArgumentListRead fits ts es := by
  intro n r us hr ha hus hfits
  have hk : r.cursor.kind ≠ .closeParen := by
    rw [kind_eq_of_ahead ha]
    exact (hs.append us).firstKind_ne rfl
  rw [before?_some hk]
  refine Action.succeeds_bind (h n 0 r us hr ha hus ?_) id fun es' s hs => hs
  rwa [Nat.zero_add]

theorem parameters_read {names : List Token} (h : Parameters ts names) (n count : Nat)
    {r : Reading} (hr : r.cursor.Closed) (ha : r.cursor.ahead = ts ++ us)
    (hus : firstKind us = .closeParen) (hfits : fits (count + names.length)) :
    (parameters n count r).Succeeds (fun ps s => Reaches fits r s us ∧ ps = names)
      (TooFew n r 1) := by
  induction h generalizing n count r with
  | one hn =>
    rw [List.singleton_append] at ha
    cases n with
    | zero => exact tooFew_zero (by decide)
    | succ n =>
      obtain ⟨s, hx, hs⟩ :=
        reportExcess_reaches count 1 .tooManyParameters (by decide) (.inr rfl) hfits hr
      rw [parameters, Action.bind_ok hx]
      refine expect_bind fits hs.closed (hs.ahead.trans ha) hn fun t ht => ?_
      have hcomma : t.cursor.kind ≠ .comma := by
        rw [kind_eq_of_ahead ht.ahead, hus]
        decide
      rw [Action.bind_ok (behind?_none hcomma)]
      exact ⟨hs.trans ht, rfl⟩
  | @more name comma ts names hn hc _ ih =>
    rw [List.cons_append, List.cons_append] at ha
    rw [List.length_cons, Nat.add_comm names.length] at hfits
    cases n with
    | zero => exact tooFew_zero (by decide)
    | succ n =>
      obtain ⟨s, hx, hs⟩ := reportExcess_reaches count (1 + names.length) .tooManyParameters
        (by omega) (.inr rfl) hfits hr
      rw [parameters, Action.bind_ok hx]
      refine expect_bind fits hs.closed (hs.ahead.trans ha) hn fun t ht => ?_
      refine behind?_bind fits ht.closed ht.ahead hc fun u hu => ?_
      refine (ih n (count + 1) hu.closed hu.ahead ?_).mono ?_ (fun _ _ => id) ?_
      · rwa [Nat.add_assoc]
      · rintro ps v ⟨hv, rfl⟩
        exact ⟨((hs.trans ht).trans hu).trans hv, rfl⟩
      · refine TooFew.behind ha hu.ahead ?_ (by decide)
        simp only [List.length_cons]
        omega

theorem parameterList_read {names : List Token} (h : ParameterList ts names) (n : Nat)
    {r : Reading} (hr : r.cursor.Closed) (ha : r.cursor.ahead = ts ++ us)
    (hus : firstKind us = .closeParen) (hfits : fits names.length) :
    (before? .closeParen (parameters n 0) r).Succeeds
      (fun o s => Reaches fits r s us ∧ o.getD [] = names) (TooFew n r 1) := by
  cases h with
  | none =>
    rw [before?_none ((kind_eq_of_ahead ha).trans hus)]
    exact ⟨Reaches.refl hr ha, rfl⟩
  | some hp =>
    have hk : r.cursor.kind ≠ .closeParen := by
      rw [kind_eq_of_ahead ha]
      cases hp with
      | one hn | more hn =>
        show ¬ Token.kind _ = _
        rw [hn]
        decide
    rw [before?_some hk]
    refine Action.succeeds_bind (parameters_read hp n 0 hr ha hus ?_) id fun ps s hs => hs
    rwa [Nat.zero_add]

end LoxLang.Read
