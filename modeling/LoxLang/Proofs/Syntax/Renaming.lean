import LoxLang.Proofs.Scope.Relabel
import LoxLang.Syntax.Reading

/-!
Reading looks at neither lines nor node numbers.

A change of tokens that keeps their kinds, their lexemes and what they are read as, such as one of
lines, is not seen.  If the tokens are changed like this, and nodes are numbered from further on,
reading goes as before, step by step, and what is read is relabelled in the same way
(`Program.ofTokens_map`).  `Carries` says this of one step; steps one after the other carry it if each
of them does.
-/

namespace LoxLang

/-- A change of tokens that reading does not see. -/
structure KeepsText (f : Token → Token) : Prop where
  kind : ∀ t, (f t).kind = t.kind
  lexeme : ∀ t, (f t).lexeme = t.lexeme
  number : ∀ t, Read.numberOf (f t) = Read.numberOf t
  string : ∀ t, Read.stringOf (f t) = Read.stringOf t

section

variable (f : Token → Token) (d : Nat)

def Cursor.relabel (c : Cursor) : Cursor := ⟨f c.previous, f c.current, c.upcoming.map f⟩

def Reading.relabel (r : Reading) : Reading :=
  ⟨r.cursor.relabel f, r.faults.map (·.relabel f), r.nextId + d⟩

abbrev Expr.moved (e : Expr) : Expr := e.relabel f (· + d)

abbrev Stmt.moved (s : Stmt) : Stmt := s.relabel f (· + d)

abbrev Expr.movedAll (es : List Expr) : List Expr := Expr.relabelAll f (· + d) es

abbrev Stmt.movedAll (ss : List Stmt) : List Stmt := Stmt.relabelAll f (· + d) ss

end

theorem Stmt.relabelAll_eq_map (f : Token → Token) (g : NodeId → NodeId) (ss : List Stmt) :
    Stmt.relabelAll f g ss = ss.map (·.relabel f g) := by
  induction ss with
  | nil => rfl
  | cons s ss ih => rw [List.map_cons, ← ih]; rfl

theorem Stmt.relabelAll_append (f : Token → Token) (g : NodeId → NodeId) (ss qs : List Stmt) :
    Stmt.relabelAll f g (ss ++ qs) = Stmt.relabelAll f g ss ++ Stmt.relabelAll f g qs := by
  rw [relabelAll_eq_map, relabelAll_eq_map, relabelAll_eq_map, List.map_append]

/-! ## Cursors -/

section

variable {f : Token → Token} (hf : KeepsText f)

include hf

theorem Cursor.kind_relabel (c : Cursor) : (c.relabel f).kind = c.kind := hf.kind _

theorem Cursor.atEnd_relabel (c : Cursor) : (c.relabel f).atEnd = c.atEnd := by
  rw [atEnd, atEnd, kind_relabel hf]

theorem Cursor.nextKind_relabel (c : Cursor) : (c.relabel f).nextKind = c.nextKind := by
  show (((c.upcoming.map f).head?).map (·.kind)).getD .eof = _
  rw [List.head?_map, Option.map_map, nextKind]
  congr 2
  funext t
  exact hf.kind t

theorem Cursor.advance_relabel (c : Cursor) : (c.relabel f).advance = c.advance.relabel f := by
  rw [advance, advance, atEnd_relabel hf]
  obtain ⟨previous, current, upcoming⟩ := c
  split
  · rfl
  · cases upcoming <;> rfl

theorem Cursor.skip_relabel (previous current : Token) (upcoming : List Token) :
    skip (f previous) (f current) (upcoming.map f) = (skip previous current upcoming).relabel f := by
  induction upcoming generalizing previous current with
  | nil =>
    rw [List.map_nil, skip, skip, hf.kind, hf.kind]
    split <;> rfl
  | cons t ts ih =>
    rw [List.map_cons, skip, skip, hf.kind, hf.kind]
    split
    · rfl
    · exact ih current t

theorem Cursor.synchronize_relabel (c : Cursor) :
    (c.relabel f).synchronize = c.synchronize.relabel f := by
  rw [synchronize, synchronize, advance_relabel hf]
  exact skip_relabel hf _ _ _

theorem Cursor.ofTokens_map (ts : List Token) {last : Token} (hlast : last.kind = .eof) :
    ofTokens ((ts ++ [last]).map f) = (ofTokens (ts ++ [last])).relabel f := by
  have hclosed : ∀ (us : List Token) (t : Token), t.kind = .eof →
      closeTokens (us ++ [t]) = us ++ [t] := by
    intro us t ht
    rw [closeTokens, List.getLast?_concat]
    exact if_pos ht
  have hmap : (ts ++ [last]).map f = ts.map f ++ [f last] := by simp
  rw [hmap, ofTokens, ofTokens, hclosed _ _ hlast, hclosed _ _ ((hf.kind last).trans hlast), ← hmap]
  cases ts <;> rfl

end

/-! ## Steps -/

namespace Read

section

variable (f : Token → Token) (d : Nat)

/-- What comes of a reading, relabelled. -/
def relabelOutcome {α β : Type} (h : α → β) :
    Outcome TokenError Reading α → Outcome TokenError Reading β
  | .ok a s => .ok (h a) (s.relabel f d)
  | .error e s => .error (e.relabel f) (s.relabel f d)
  | .exhausted => .exhausted

/-- From the relabelled reading, `y` does what `x` does, and relabelled. -/
def Carries {α β : Type} (h : α → β) (x : Read α) (y : Read β) : Prop :=
  ∀ r, y (r.relabel f d) = relabelOutcome f d h (x r)

end

variable {f : Token → Token} {d : Nat} {α β γ δ : Type} {h : α → β} {k : γ → δ} {x : Read α}
  {y : Read β}

theorem Carries.bind {F : α → Read γ} {G : β → Read δ} (hx : Carries f d h x y)
    (hk : ∀ a, Carries f d k (F a) (G (h a))) : Carries f d k (x >>= F) (y >>= G) := by
  intro r
  rw [Action.bind_apply, Action.bind_apply, hx r]
  cases x r with
  | ok a s => exact hk a s
  | error e s => rfl
  | exhausted => rfl

theorem Carries.pure (a : α) {b : β} (hb : b = h a) : Carries f d h (Pure.pure a) (Pure.pure b) := by
  intro r
  rw [hb]
  rfl

theorem carries_outOfSteps : Carries f d h Action.outOfSteps Action.outOfSteps := fun _ => rfl

theorem carries_fail (e : TokenError) :
    Carries f d h (Action.fail e) (Action.fail (e.relabel f)) := fun _ => rfl

theorem Carries.attempt (hx : Carries f d h x y) :
    Carries f d (Except.map h ∘ Except.mapError (·.relabel f)) (Action.attempt x)
      (Action.attempt y) := by
  intro r
  rw [Action.attempt, Action.attempt, hx r]
  cases x r <;> rfl

theorem carries_report (e : TokenError) : Carries f d id (report e) (report (e.relabel f)) :=
  fun _ => rfl

theorem carries_freshId : Carries f d (· + d) freshId freshId := by
  intro r
  show Outcome.ok (r.nextId + d) _ = Outcome.ok (r.nextId + d) _
  rw [Reading.relabel, Reading.relabel]
  congr 2
  exact Nat.add_right_comm r.nextId d 1

theorem carries_current : Carries f d f current current := fun _ => rfl

section

set_option linter.unusedSectionVars false

variable (hf : KeepsText f)

include hf

theorem carries_kind : Carries f d id kind kind :=
  fun r => congrArg (Outcome.ok · (r.relabel f d)) (r.cursor.kind_relabel hf)

theorem carries_nextKind : Carries f d id nextKind nextKind :=
  fun r => congrArg (Outcome.ok · (r.relabel f d)) (r.cursor.nextKind_relabel hf)

theorem carries_check (k : Kind) : Carries f d id (check k) (check k) := by
  intro r
  show Outcome.ok (decide ((r.cursor.relabel f).kind = k)) (r.relabel f d) = _
  rw [r.cursor.kind_relabel hf]
  rfl

theorem carries_atEnd : Carries f d id atEnd atEnd :=
  fun r => congrArg (Outcome.ok · (r.relabel f d)) (r.cursor.atEnd_relabel hf)

theorem carries_advance : Carries f d f advance advance := by
  intro r
  show Outcome.ok (r.cursor.relabel f).advance.previous
    (⟨(r.cursor.relabel f).advance, _, _⟩ : Reading) = _
  rw [r.cursor.advance_relabel hf]
  rfl

theorem carries_synchronize : Carries f d id synchronize synchronize := by
  intro r
  show Outcome.ok () (⟨(r.cursor.relabel f).synchronize, _, _⟩ : Reading) = _
  rw [r.cursor.synchronize_relabel hf]
  rfl

theorem carries_expected (expectation : String) :
    Carries f d (·.relabel f) (expected expectation) (expected expectation) := by
  refine carries_current.bind fun t => .pure _ ?_
  rw [TokenError.expected, hf.lexeme]
  rfl

theorem carries_failExpected (expectation : String) :
    Carries f d h (expected expectation >>= fun e => Action.fail e)
      (expected expectation >>= fun e => Action.fail e) :=
  (carries_expected hf expectation).bind fun e => carries_fail e

theorem carries_expect (k : Kind) (expectation : String) :
    Carries f d f (expect k expectation) (expect k expectation) := by
  refine (carries_check hf k).bind fun b => ?_
  cases b with
  | false => exact carries_failExpected hf expectation
  | true => exact carries_advance hf

theorem Carries.behind? (k : Kind) (hx : Carries f d h x y) :
    Carries f d (Option.map h) (behind? k x) (behind? k y) := by
  refine (carries_check hf k).bind fun b => ?_
  cases b with
  | false => exact .pure none rfl
  | true =>
    refine (carries_advance hf).bind fun _ => hx.bind fun a => ?_
    exact .pure (some a) rfl

theorem Carries.before? (k : Kind) (hx : Carries f d h x y) :
    Carries f d (Option.map h) (before? k x) (before? k y) := by
  refine (carries_check hf k).bind fun b => ?_
  cases b with
  | false => exact hx.bind fun a => .pure (some a) rfl
  | true => exact .pure none rfl

theorem carries_reportExcess (count : Nat) (cause : Cause) :
    Carries f d id (reportExcess count cause) (reportExcess count cause) := by
  unfold reportExcess
  split
  · exact carries_current.bind fun t => carries_report ⟨t, cause⟩
  · exact .pure () rfl

theorem carries_parameters (n count : Nat) :
    Carries f d (List.map f) (parameters n count) (parameters n count) := by
  induction n generalizing count with
  | zero => exact carries_outOfSteps
  | succ n ih =>
    refine (carries_reportExcess hf count _).bind fun _ => ?_
    refine (carries_expect hf .identifier _).bind fun name => ?_
    refine ((ih (count + 1)).behind? hf .comma).bind fun rest => .pure _ ?_
    cases rest <;> rfl

end

/-! ## Trees -/

theorem loopOf_relabel (g : NodeId → NodeId) (initializer : Option Stmt)
    (condition increment : Option Expr) (body : Stmt) :
    loopOf (initializer.map (·.relabel f g)) (condition.map (·.relabel f g))
        (increment.map (·.relabel f g)) (body.relabel f g) =
      (loopOf initializer condition increment body).relabel f g := by
  cases initializer <;> cases condition <;> cases increment <;> rfl

theorem relabelAll_toList_append (g : NodeId → NodeId) (first : Option Stmt) (rest : List Stmt) :
    (first.map (·.relabel f g)).toList ++ Stmt.relabelAll f g rest =
      Stmt.relabelAll f g (first.toList ++ rest) := by
  cases first <;> rfl

section

variable (f : Token → Token) (d : Nat)

/-- What `n` nested steps read. -/
structure Carried (n : Nat) : Prop where
  expr : ∀ power, Carries f d (Expr.moved f d) (expr n power) (expr n power)
  continuations : ∀ power left,
    Carries f d (Expr.moved f d) (continuations n power left) (continuations n power (left.moved f d))
  operand : Carries f d (Expr.moved f d) (operand n) (operand n)
  continuation : ∀ k left,
    Carries f d (Expr.moved f d) (continuation n k left) (continuation n k (left.moved f d))
  arguments : ∀ count, Carries f d (Expr.movedAll f d) (arguments n count) (arguments n count)
  functionRest : Carries f d (fun p => (p.1.map f, Stmt.movedAll f d p.2)) (functionRest n)
    (functionRest n)
  blockRest : Carries f d (Stmt.movedAll f d) (blockRest n) (blockRest n)
  declaration : Carries f d (Option.map (Stmt.moved f d)) (declaration n) (declaration n)
  unguarded : Carries f d (Stmt.moved f d) (unguarded n) (unguarded n)
  varDeclaration : Carries f d (Stmt.moved f d) (varDeclaration n) (varDeclaration n)
  expressionStatement : Carries f d (Stmt.moved f d) (expressionStatement n) (expressionStatement n)
  statement : Carries f d (Stmt.moved f d) (statement n) (statement n)
  initializer : Carries f d (Option.map (Stmt.moved f d)) (initializer n) (initializer n)
  forStatement : Carries f d (Stmt.moved f d) (forStatement n) (forStatement n)

end

section

set_option linter.unusedSectionVars false

variable {n : Nat} (hf : KeepsText f) (ih : Carried f d n)

include hf ih

theorem Carried.expr_succ (power : Power) :
    Carries f d (Expr.moved f d) (Read.expr (n + 1) power) (Read.expr (n + 1) power) :=
  ih.operand.bind fun left => ih.continuations power left

theorem Carried.continuations_succ (power : Power) (left : Expr) :
    Carries f d (Expr.moved f d) (Read.continuations (n + 1) power left)
      (Read.continuations (n + 1) power (left.moved f d)) := by
  refine (carries_kind hf).bind fun k => ?_
  simp only [id]
  split
  · exact (ih.continuation k left).bind fun left => ih.continuations power left
  · exact .pure left rfl

omit ih in
/-- A constant that stands for itself. -/
theorem carries_constant (c : Token → Constant) (hc : ∀ t, c (f t) = c t) :
    Carries f d (Expr.moved f d) (advance >>= fun t => Pure.pure (.constant (c t)))
      (advance >>= fun t => Pure.pure (.constant (c t))) := by
  refine (carries_advance hf).bind fun t => .pure _ ?_
  rw [hc]
  rfl

theorem Carried.operand_succ :
    Carries f d (Expr.moved f d) (Read.operand (n + 1)) (Read.operand (n + 1)) := by
  refine (carries_kind hf).bind fun k => ?_
  cases k with
  | number =>
    exact carries_constant hf (fun t => .number (numberOf t)) fun t => congrArg _ (hf.number t)
  | string =>
    exact carries_constant hf (fun t => .string (stringOf t)) fun t => congrArg _ (hf.string t)
  | trueKw => exact carries_constant hf (fun _ => .bool true) fun _ => rfl
  | falseKw => exact carries_constant hf (fun _ => .bool false) fun _ => rfl
  | nilKw => exact carries_constant hf (fun _ => .nil) fun _ => rfl
  | identifier =>
    refine (carries_advance hf).bind fun name => carries_freshId.bind fun id => ?_
    exact .pure (Expr.read id name) rfl
  | not =>
    refine (carries_advance hf).bind fun operator => (ih.expr .unary).bind fun e => ?_
    exact .pure (Expr.unary operator e) rfl
  | dash =>
    refine (carries_advance hf).bind fun operator => (ih.expr .unary).bind fun e => ?_
    exact .pure (Expr.unary operator e) rfl
  | openParen =>
    refine (carries_advance hf).bind fun _ => (ih.expr .none).bind fun e => ?_
    exact (carries_expect hf _ _).bind fun _ => .pure (Expr.grouping e) rfl
  | funKw =>
    refine (carries_advance hf).bind fun keyword => ih.functionRest.bind fun rest => ?_
    exact .pure (Expr.function keyword rest.1 rest.2) rfl
  | _ => exact carries_failExpected hf _

theorem Carried.continuation_succ (k : Kind) (left : Expr) :
    Carries f d (Expr.moved f d) (Read.continuation (n + 1) k left)
      (Read.continuation (n + 1) k (left.moved f d)) := by
  have hlogical : Carries f d (Expr.moved f d)
      (advance >>= fun operator => Read.expr n k.power >>= fun right =>
        Pure.pure (Expr.logical left operator right))
      (advance >>= fun operator => Read.expr n k.power >>= fun right =>
        Pure.pure (Expr.logical (left.moved f d) operator right)) := by
    refine (carries_advance hf).bind fun operator => (ih.expr _).bind fun right => ?_
    exact .pure (Expr.logical left operator right) rfl
  have hbinary : Carries f d (Expr.moved f d)
      (advance >>= fun operator => Read.expr n k.power >>= fun right =>
        Pure.pure (Expr.binary left operator right))
      (advance >>= fun operator => Read.expr n k.power >>= fun right =>
        Pure.pure (Expr.binary (left.moved f d) operator right)) := by
    refine (carries_advance hf).bind fun operator => (ih.expr _).bind fun right => ?_
    exact .pure (Expr.binary left operator right) rfl
  cases k with
  | assignment =>
    refine (carries_advance hf).bind fun operator => (ih.expr .none).bind fun value => ?_
    have hother : ∀ other : Expr, Carries f d (Expr.moved f d)
        (report ⟨operator, .invalidAssignmentTarget⟩ >>= fun _ => Pure.pure other)
        (report ⟨f operator, .invalidAssignmentTarget⟩ >>= fun _ =>
          Pure.pure (other.moved f d)) := by
      intro other
      exact (carries_report ⟨operator, .invalidAssignmentTarget⟩).bind fun _ => .pure other rfl
    cases left with
    | read id name => exact carries_freshId.bind fun id => .pure (Expr.assign id name value) rfl
    | _ => exact hother _
  | openParen =>
    refine (carries_advance hf).bind fun _ => ?_
    refine ((ih.arguments 0).before? hf .closeParen).bind fun values => ?_
    refine (carries_expect hf _ _).bind fun paren => .pure (Expr.call left paren (values.getD [])) ?_
    cases values <;> rfl
  | orKw => exact hlogical
  | andKw => exact hlogical
  | _ => exact hbinary

theorem Carried.arguments_succ (count : Nat) :
    Carries f d (Expr.movedAll f d) (Read.arguments (n + 1) count)
      (Read.arguments (n + 1) count) := by
  refine (carries_reportExcess hf count _).bind fun _ => (ih.expr .none).bind fun value => ?_
  refine ((ih.arguments (count + 1)).behind? hf .comma).bind fun rest => .pure _ ?_
  cases rest <;> rfl

theorem Carried.functionRest_succ :
    Carries f d (fun p => (p.1.map f, Stmt.movedAll f d p.2)) (Read.functionRest (n + 1))
      (Read.functionRest (n + 1)) := by
  refine (carries_expect hf _ _).bind fun _ => ?_
  refine ((carries_parameters hf n 0).before? hf .closeParen).bind fun params => ?_
  refine (carries_expect hf _ _).bind fun _ => (carries_expect hf _ _).bind fun _ => ?_
  refine ih.blockRest.bind fun body => .pure (params.getD [], body) ?_
  cases params <;> rfl

theorem Carried.blockRest_succ :
    Carries f d (Stmt.movedAll f d) (Read.blockRest (n + 1)) (Read.blockRest (n + 1)) := by
  refine (carries_check hf .closeCurly).bind fun b => (carries_atEnd hf).bind fun e => ?_
  simp only [id]
  split
  · exact (carries_expect hf _ _).bind fun _ => .pure [] rfl
  · refine ih.declaration.bind fun first => ih.blockRest.bind fun rest => ?_
    exact .pure (first.toList ++ rest) (relabelAll_toList_append _ first rest)

theorem Carried.declaration_succ :
    Carries f d (Option.map (Stmt.moved f d)) (Read.declaration (n + 1))
      (Read.declaration (n + 1)) := by
  refine ih.unguarded.attempt.bind fun result => ?_
  cases result with
  | ok s => exact .pure (some s) rfl
  | error e =>
    refine (carries_report e).bind fun _ => (carries_synchronize hf).bind fun _ => ?_
    exact .pure none rfl

theorem Carried.unguarded_succ :
    Carries f d (Stmt.moved f d) (Read.unguarded (n + 1)) (Read.unguarded (n + 1)) := by
  refine (carries_kind hf).bind fun k => ?_
  cases k with
  | varKw => exact ih.varDeclaration
  | funKw =>
    refine (carries_nextKind hf).bind fun next => ?_
    simp only [id]
    split
    · refine (carries_advance hf).bind fun _ => (carries_expect hf _ _).bind fun name => ?_
      refine ih.functionRest.bind fun rest => .pure (Stmt.function name rest.1 rest.2) rfl
    · exact ih.expressionStatement
  | _ => exact ih.statement

theorem Carried.varDeclaration_succ :
    Carries f d (Stmt.moved f d) (Read.varDeclaration (n + 1)) (Read.varDeclaration (n + 1)) := by
  refine (carries_advance hf).bind fun _ => (carries_expect hf _ _).bind fun name => ?_
  refine ((ih.expr .none).behind? hf .assignment).bind fun value => ?_
  refine (carries_expect hf _ _).bind fun _ => .pure (Stmt.var name value) ?_
  cases value <;> rfl

theorem Carried.expressionStatement_succ :
    Carries f d (Stmt.moved f d) (Read.expressionStatement (n + 1))
      (Read.expressionStatement (n + 1)) := by
  refine (ih.expr .none).bind fun value => (carries_expect hf _ _).bind fun _ => ?_
  exact .pure (Stmt.expression value) rfl

theorem Carried.statement_succ :
    Carries f d (Stmt.moved f d) (Read.statement (n + 1)) (Read.statement (n + 1)) := by
  refine (carries_kind hf).bind fun k => ?_
  cases k with
  | printKw =>
    refine (carries_advance hf).bind fun keyword => (ih.expr .none).bind fun value => ?_
    exact (carries_expect hf _ _).bind fun _ => .pure (Stmt.print keyword value) rfl
  | openCurly =>
    refine (carries_advance hf).bind fun _ => ih.blockRest.bind fun body => ?_
    exact .pure (Stmt.block body) rfl
  | ifKw =>
    refine (carries_advance hf).bind fun _ => (carries_expect hf _ _).bind fun _ => ?_
    refine (ih.expr .none).bind fun condition => (carries_expect hf _ _).bind fun _ => ?_
    refine ih.statement.bind fun thenBranch => ?_
    refine (ih.statement.behind? hf .elseKw).bind fun elseBranch => ?_
    refine .pure (Stmt.ifElse condition thenBranch elseBranch) ?_
    cases elseBranch <;> rfl
  | whileKw =>
    refine (carries_advance hf).bind fun _ => (carries_expect hf _ _).bind fun _ => ?_
    refine (ih.expr .none).bind fun condition => (carries_expect hf _ _).bind fun _ => ?_
    exact ih.statement.bind fun body => .pure (Stmt.while condition body) rfl
  | forKw => exact ih.forStatement
  | returnKw =>
    refine (carries_advance hf).bind fun keyword => ?_
    refine ((ih.expr .none).before? hf .semicolon).bind fun value => ?_
    refine (carries_expect hf _ _).bind fun _ => .pure (Stmt.return keyword value) ?_
    cases value <;> rfl
  | _ => exact ih.expressionStatement

theorem Carried.initializer_succ :
    Carries f d (Option.map (Stmt.moved f d)) (Read.initializer (n + 1))
      (Read.initializer (n + 1)) := by
  have hexpression : Carries f d (Option.map (Stmt.moved f d))
      (Read.expressionStatement n >>= fun s => Pure.pure (some s))
      (Read.expressionStatement n >>= fun s => Pure.pure (some s)) :=
    ih.expressionStatement.bind fun s => .pure (some s) rfl
  refine (carries_kind hf).bind fun k => ?_
  cases k with
  | semicolon => exact (carries_advance hf).bind fun _ => .pure none rfl
  | varKw => exact ih.varDeclaration.bind fun s => .pure (some s) rfl
  | _ => exact hexpression

theorem Carried.forStatement_succ :
    Carries f d (Stmt.moved f d) (Read.forStatement (n + 1)) (Read.forStatement (n + 1)) := by
  refine (carries_advance hf).bind fun _ => (carries_expect hf _ _).bind fun _ => ?_
  refine ih.initializer.bind fun initializer => ?_
  refine ((ih.expr .none).before? hf .semicolon).bind fun condition => ?_
  refine (carries_expect hf _ _).bind fun _ => ?_
  refine ((ih.expr .none).before? hf .closeParen).bind fun increment => ?_
  refine (carries_expect hf _ _).bind fun _ => ih.statement.bind fun body => ?_
  exact .pure (loopOf initializer condition increment body)
    (loopOf_relabel (· + d) initializer condition increment body)

end

theorem carried (hf : KeepsText f) (d n : Nat) : Carried f d n := by
  induction n with
  | zero =>
    exact ⟨fun _ => carries_outOfSteps, fun _ _ => carries_outOfSteps, carries_outOfSteps,
      fun _ _ => carries_outOfSteps, fun _ => carries_outOfSteps, carries_outOfSteps,
      carries_outOfSteps, carries_outOfSteps, carries_outOfSteps, carries_outOfSteps,
      carries_outOfSteps, carries_outOfSteps, carries_outOfSteps, carries_outOfSteps⟩
  | succ n ih =>
    exact ⟨ih.expr_succ hf, ih.continuations_succ hf, ih.operand_succ hf, ih.continuation_succ hf,
      ih.arguments_succ hf, ih.functionRest_succ hf, ih.blockRest_succ hf, ih.declaration_succ hf,
      ih.unguarded_succ hf, ih.varDeclaration_succ hf, ih.expressionStatement_succ hf,
      ih.statement_succ hf, ih.initializer_succ hf, ih.forStatement_succ hf⟩

theorem carries_declarations (hf : KeepsText f) (d n : Nat) :
    Carries f d (Stmt.movedAll f d) (declarations n) (declarations n) := by
  induction n with
  | zero => exact carries_outOfSteps
  | succ n ih =>
    refine (carries_atEnd hf).bind fun e => ?_
    simp only [id]
    split
    · exact .pure [] rfl
    · refine (carried hf d n).declaration.bind fun first => ih.bind fun rest => ?_
      exact .pure (first.toList ++ rest) (relabelAll_toList_append _ first rest)

end Read

/-! ## Programs -/

namespace Program

def relabel (f : Token → Token) (d : Nat) (p : Program) : Program :=
  ⟨Stmt.movedAll f d p.statements, p.faults.map (·.relabel f), p.nextId + d⟩

theorem ofTokens_relabel {f : Token → Token} (hf : KeepsText f) {d : Nat}
    {tokens tokens' : List Token} {nextId : NodeId}
    (hstart : Reading.start tokens' (nextId + d) = (Reading.start tokens nextId).relabel f d) :
    ofTokens tokens' (nextId + d) = (ofTokens tokens nextId).relabel f d := by
  have hbudget : ((Reading.start tokens nextId).relabel f d).budget =
      (Reading.start tokens nextId).budget := by
    show 16 * ((List.map f _).length + 2) = _
    rw [List.length_map]
    rfl
  rw [ofTokens, ofTokens, hstart, Read.withBudget, Read.withBudget, hbudget,
    Read.carries_declarations hf d _ (Reading.start tokens nextId)]
  cases Read.declarations _ (Reading.start tokens nextId) with
  | ok statements r =>
    show Program.mk _ (r.faults.map (·.relabel f)).reverse _ = _
    rw [← List.map_reverse]
    rfl
  | error e r =>
    show Program.mk _ ((e :: r.faults).map (·.relabel f)).reverse _ = _
    rw [← List.map_reverse]
    rfl
  | exhausted => rfl

/-- Tokens that are changed unseen, and nodes numbered from further on, make up the same program with
these tokens and numbers. -/
theorem ofTokens_map {f : Token → Token} (hf : KeepsText f) (d : Nat) (ts : List Token)
    {last : Token} (hlast : last.kind = .eof) (nextId : NodeId) :
    ofTokens ((ts ++ [last]).map f) (nextId + d) =
      (ofTokens (ts ++ [last]) nextId).relabel f d := by
  refine ofTokens_relabel hf ?_
  rw [Reading.start, Cursor.ofTokens_map hf ts hlast]
  rfl

/-! ## Numbers alone -/

theorem keepsText_id : KeepsText id := ⟨fun _ => rfl, fun _ => rfl, fun _ => rfl, fun _ => rfl⟩

@[simp] theorem relabel_id (e : TokenError) : e.relabel id = e := rfl

theorem unnumbered_movedAll (d : Nat) (ss : List Stmt) :
    unnumbered (Stmt.movedAll id d ss) = unnumbered ss :=
  Stmt.relabelAll_relabelAll _ _ _ _ ss

theorem ofTokens_add (tokens : List Token) (nextId : NodeId) (d : Nat) :
    ofTokens tokens (nextId + d) = (ofTokens tokens nextId).relabel id d := by
  refine ofTokens_relabel keepsText_id ?_
  rw [Reading.start, Reading.start, Reading.relabel, Cursor.relabel, List.map_id]
  rfl

/-- The number of the first node changes the numbers, and nothing else. -/
theorem ofTokens_anew (tokens : List Token) (n m : NodeId) :
    unnumbered (ofTokens tokens n).statements = unnumbered (ofTokens tokens m).statements ∧
      (ofTokens tokens n).faults = (ofTokens tokens m).faults := by
  have hzero : ∀ n, unnumbered (ofTokens tokens n).statements =
      unnumbered (ofTokens tokens 0).statements ∧
        (ofTokens tokens n).faults = (ofTokens tokens 0).faults := by
    intro n
    have h := ofTokens_add tokens 0 n
    rw [Nat.zero_add] at h
    rw [h]
    exact ⟨unnumbered_movedAll n _, List.map_id _⟩
  exact ⟨(hzero n).1.trans (hzero m).1.symm, (hzero n).2.trans (hzero m).2.symm⟩

end Program

end LoxLang
