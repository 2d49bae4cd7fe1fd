import LoxLang.Proofs.Outcome
import LoxLang.Proofs.Syntax.StatementDerivation
import LoxLang.Syntax.Reading

/-!
Reading is composed of single steps.

`Composed x y` says that `x` and `y` are put together from the same single steps in the same way,
except that `x` may run out of steps on the way.  The functions that read are composed so, with some
number of steps and with no fewer (`composing`).  What holds of every single step, and of one
computation after another if it holds of both, therefore holds of all of them; it is proved by
induction on the composition, without a look at the functions.  The first use of it is that steps
beyond those that suffice change nothing, so a program is read with any number that does
(`Program.ofTokens_terminates`).

The token behind the current one is looked at in one place only, at a `fun`, to tell a declaration
from an expression (`startsNamed`).
-/

namespace LoxLang

namespace Read

/-- A `fun` with a name behind it. -/
def startsNamed : Read Bool := fun r =>
  .ok (r.cursor.kind = .funKw && r.cursor.nextKind = .identifier) r

inductive Composed : {α : Type} → Read α → Read α → Prop
  | short {α : Type} (y : Read α) : Composed Action.outOfSteps y
  | pure {α : Type} (a : α) : Composed (Pure.pure a) (Pure.pure a)
  | fail {α : Type} (e : TokenError) : Composed (α := α) (Action.fail e) (Action.fail e)
  | look {α : Type} (f : Token → α) :
    Composed (fun r => .ok (f r.cursor.current) r) (fun r => .ok (f r.cursor.current) r)
  | startsNamed : Composed startsNamed startsNamed
  | advance : Composed advance advance
  | report (e : TokenError) : Composed (report e) (report e)
  | freshId : Composed freshId freshId
  | synchronize : Composed synchronize synchronize
  | bind {α β : Type} {x y : Read α} {F G : α → Read β} (h : Composed x y)
    (hk : ∀ a, Composed (F a) (G a)) : Composed (x >>= F) (y >>= G)
  | attempt {α : Type} {x y : Read α} (h : Composed x y) :
    Composed (Action.attempt x) (Action.attempt y)

/-! ## Steps that look at one token -/

theorem composed_current : Composed current current := .look id

theorem composed_kind : Composed kind kind := .look (·.kind)

theorem composed_check (k : Kind) : Composed (check k) (check k) := .look fun t => decide (t.kind = k)

theorem composed_atEnd : Composed atEnd atEnd := .look fun t => decide (t.kind = .eof)

theorem composed_failExpected {α : Type} (expectation : String) :
    Composed (α := α) (expected expectation >>= fun e => Action.fail e)
      (expected expectation >>= fun e => Action.fail e) :=
  (composed_current.bind fun _ => .pure _).bind fun e => .fail e

theorem composed_expect (k : Kind) (expectation : String) :
    Composed (expect k expectation) (expect k expectation) := by
  refine (composed_check k).bind fun b => ?_
  cases b with
  | false => exact composed_failExpected expectation
  | true => exact .advance

theorem Composed.behind? {α : Type} {x y : Read α} (k : Kind) (h : Composed x y) :
    Composed (behind? k x) (behind? k y) := by
  refine (composed_check k).bind fun b => ?_
  cases b with
  | false => exact .pure none
  | true => exact Composed.advance.bind fun _ => h.bind fun a => .pure (some a)

theorem Composed.before? {α : Type} {x y : Read α} (k : Kind) (h : Composed x y) :
    Composed (before? k x) (before? k y) := by
  refine (composed_check k).bind fun b => ?_
  cases b with
  | false => exact h.bind fun a => .pure (some a)
  | true => exact .pure none

theorem composed_reportExcess (count : Nat) (cause : Cause) :
    Composed (reportExcess count cause) (reportExcess count cause) := by
  unfold reportExcess
  split
  · exact composed_current.bind fun token => .report ⟨token, cause⟩
  · exact .pure ()

theorem composed_parameters {n m : Nat} (h : n ≤ m) (count : Nat) :
    Composed (parameters n count) (parameters m count) := by
  induction n generalizing m count with
  | zero => exact .short _
  | succ n ih =>
    obtain ⟨m, rfl⟩ : ∃ k, m = k + 1 := Nat.exists_eq_add_one.2 (Nat.zero_lt_of_lt h)
    refine (composed_reportExcess count _).bind fun _ => ?_
    refine (composed_expect .identifier _).bind fun name => ?_
    exact ((ih (Nat.le_of_succ_le_succ h) (count + 1)).behind? .comma).bind fun rest => .pure _

/-! ## Expressions, statements and declarations -/

/-- The functions that read, with `n` and with `m` nested steps. -/
structure Composing (n m : Nat) : Prop where
  le : n ≤ m
  expr : ∀ power, Composed (expr n power) (expr m power)
  continuations : ∀ power left, Composed (continuations n power left) (continuations m power left)
  operand : Composed (operand n) (operand m)
  continuation : ∀ k left, Composed (continuation n k left) (continuation m k left)
  arguments : ∀ count, Composed (arguments n count) (arguments m count)
  functionRest : Composed (functionRest n) (functionRest m)
  blockRest : Composed (blockRest n) (blockRest m)
  declaration : Composed (declaration n) (declaration m)
  unguarded : Composed (unguarded n) (unguarded m)
  varDeclaration : Composed (varDeclaration n) (varDeclaration m)
  expressionStatement : Composed (expressionStatement n) (expressionStatement m)
  statement : Composed (statement n) (statement m)
  initializer : Composed (initializer n) (initializer m)
  forStatement : Composed (forStatement n) (forStatement m)

/-- The token behind `fun` is all that is looked at beyond the current token. -/
theorem unguarded_eq_startsNamed (n : Nat) :
    unguarded (n + 1) = (do
      let k ← kind
      let named ← startsNamed
      match k with
      | .varKw => varDeclaration n
      | .funKw =>
        if named then
          let _ ← advance
          let name ← expect .identifier "Expect function name"
          let (params, body) ← functionRest n
          return .function name params body
        else expressionStatement n
      | _ => statement n) := by
  funext r
  rw [unguarded, Action.bind_ok (rfl : kind r = _), Action.bind_ok (rfl : kind r = _),
    Action.bind_ok (rfl : startsNamed r = _)]
  cases hk : r.cursor.kind with
  | funKw =>
    dsimp only
    rw [Action.bind_ok (rfl : nextKind r = _)]
    simp
  | _ => rfl

section

variable {n m : Nat} (ih : Composing n m)

include ih

theorem Composing.expr_succ (power : Power) :
    Composed (Read.expr (n + 1) power) (Read.expr (m + 1) power) :=
  ih.operand.bind fun left => ih.continuations power left

theorem Composing.continuations_succ (power : Power) (left : Expr) :
    Composed (Read.continuations (n + 1) power left) (Read.continuations (m + 1) power left) := by
  refine composed_kind.bind fun k => ?_
  split
  · exact (ih.continuation k left).bind fun left => ih.continuations power left
  · exact .pure left

theorem Composing.operand_succ : Composed (Read.operand (n + 1)) (Read.operand (m + 1)) := by
  refine composed_kind.bind fun k => ?_
  cases k with
  | number | string | trueKw | falseKw | nilKw => exact Composed.advance.bind fun _ => .pure _
  | identifier => exact Composed.advance.bind fun _ => Composed.freshId.bind fun _ => .pure _
  | not | dash => exact Composed.advance.bind fun _ => (ih.expr .unary).bind fun _ => .pure _
  | openParen =>
    refine Composed.advance.bind fun _ => (ih.expr .none).bind fun inner => ?_
    exact (composed_expect _ _).bind fun _ => .pure _
  | funKw => exact Composed.advance.bind fun _ => ih.functionRest.bind fun _ => .pure _
  | _ => exact composed_failExpected _

theorem Composing.continuation_succ (k : Kind) (left : Expr) :
    Composed (Read.continuation (n + 1) k left) (Read.continuation (m + 1) k left) := by
  have hoperation : ∀ f : Token → Expr → Expr, Composed
      (advance >>= fun operator => Read.expr n k.power >>= fun right =>
        Pure.pure (f operator right))
      (advance >>= fun operator => Read.expr m k.power >>= fun right =>
        Pure.pure (f operator right)) := fun f =>
    Composed.advance.bind fun operator => (ih.expr k.power).bind fun right => .pure _
  cases k with
  | assignment =>
    refine Composed.advance.bind fun operator => (ih.expr .none).bind fun value => ?_
    cases left with
    | read id name => exact Composed.freshId.bind fun id => .pure _
    | _ => exact (Composed.report _).bind fun _ => .pure _
  | openParen =>
    refine Composed.advance.bind fun _ => ?_
    refine ((ih.arguments 0).before? .closeParen).bind fun values => ?_
    exact (composed_expect _ _).bind fun paren => .pure _
  | orKw => exact hoperation (.logical left)
  | andKw => exact hoperation (.logical left)
  | _ => exact hoperation (.binary left)

theorem Composing.arguments_succ (count : Nat) :
    Composed (Read.arguments (n + 1) count) (Read.arguments (m + 1) count) := by
  refine (composed_reportExcess count _).bind fun _ => (ih.expr .none).bind fun value => ?_
  exact ((ih.arguments (count + 1)).behind? .comma).bind fun rest => .pure _

theorem Composing.functionRest_succ :
    Composed (Read.functionRest (n + 1)) (Read.functionRest (m + 1)) := by
  refine (composed_expect _ _).bind fun _ => ?_
  refine ((composed_parameters ih.le 0).before? .closeParen).bind fun params => ?_
  refine (composed_expect _ _).bind fun _ => (composed_expect _ _).bind fun _ => ?_
  exact ih.blockRest.bind fun body => .pure _

theorem Composing.blockRest_succ : Composed (Read.blockRest (n + 1)) (Read.blockRest (m + 1)) := by
  refine (composed_check .closeCurly).bind fun b => composed_atEnd.bind fun e => ?_
  split
  · exact (composed_expect _ _).bind fun _ => .pure []
  · exact ih.declaration.bind fun first => ih.blockRest.bind fun rest => .pure _

theorem Composing.declaration_succ :
    Composed (Read.declaration (n + 1)) (Read.declaration (m + 1)) := by
  refine ih.unguarded.attempt.bind fun result => ?_
  cases result with
  | ok s => exact .pure (some s)
  | error e =>
    exact (Composed.report e).bind fun _ => Composed.synchronize.bind fun _ => .pure none

theorem Composing.unguarded_succ : Composed (Read.unguarded (n + 1)) (Read.unguarded (m + 1)) := by
  rw [unguarded_eq_startsNamed, unguarded_eq_startsNamed]
  refine composed_kind.bind fun k => Composed.startsNamed.bind fun named => ?_
  cases k with
  | varKw => exact ih.varDeclaration
  | funKw =>
    cases named with
    | false => exact ih.expressionStatement
    | true =>
      refine Composed.advance.bind fun _ => (composed_expect _ _).bind fun name => ?_
      exact ih.functionRest.bind fun rest => .pure _
  | _ => exact ih.statement

theorem Composing.varDeclaration_succ :
    Composed (Read.varDeclaration (n + 1)) (Read.varDeclaration (m + 1)) := by
  refine Composed.advance.bind fun _ => (composed_expect _ _).bind fun name => ?_
  refine ((ih.expr .none).behind? .assignment).bind fun value => ?_
  exact (composed_expect _ _).bind fun _ => .pure _

theorem Composing.expressionStatement_succ :
    Composed (Read.expressionStatement (n + 1)) (Read.expressionStatement (m + 1)) :=
  (ih.expr .none).bind fun _ => (composed_expect _ _).bind fun _ => .pure _

theorem Composing.statement_succ : Composed (Read.statement (n + 1)) (Read.statement (m + 1)) := by
  refine composed_kind.bind fun k => ?_
  cases k with
  | printKw =>
    refine Composed.advance.bind fun keyword => (ih.expr .none).bind fun value => ?_
    exact (composed_expect _ _).bind fun _ => .pure _
  | openCurly => exact Composed.advance.bind fun _ => ih.blockRest.bind fun body => .pure _
  | ifKw =>
    refine Composed.advance.bind fun _ => (composed_expect _ _).bind fun _ => ?_
    refine (ih.expr .none).bind fun condition => (composed_expect _ _).bind fun _ => ?_
    refine ih.statement.bind fun thenBranch => ?_
    exact (ih.statement.behind? .elseKw).bind fun elseBranch => .pure _
  | whileKw =>
    refine Composed.advance.bind fun _ => (composed_expect _ _).bind fun _ => ?_
    refine (ih.expr .none).bind fun condition => (composed_expect _ _).bind fun _ => ?_
    exact ih.statement.bind fun body => .pure _
  | forKw => exact ih.forStatement
  | returnKw =>
    refine Composed.advance.bind fun keyword => ?_
    refine ((ih.expr .none).before? .semicolon).bind fun value => ?_
    exact (composed_expect _ _).bind fun _ => .pure _
  | _ => exact ih.expressionStatement

theorem Composing.initializer_succ :
    Composed (Read.initializer (n + 1)) (Read.initializer (m + 1)) := by
  refine composed_kind.bind fun k => ?_
  cases k with
  | semicolon => exact Composed.advance.bind fun _ => .pure none
  | varKw => exact ih.varDeclaration.bind fun s => .pure _
  | _ => exact ih.expressionStatement.bind fun s => .pure _

theorem Composing.forStatement_succ :
    Composed (Read.forStatement (n + 1)) (Read.forStatement (m + 1)) := by
  refine Composed.advance.bind fun _ => (composed_expect _ _).bind fun _ => ?_
  refine ih.initializer.bind fun initializer => ?_
  refine ((ih.expr .none).before? .semicolon).bind fun condition => ?_
  refine (composed_expect _ _).bind fun _ => ?_
  refine ((ih.expr .none).before? .closeParen).bind fun increment => ?_
  exact (composed_expect _ _).bind fun _ => ih.statement.bind fun body => .pure _

end

theorem composing {n m : Nat} (h : n ≤ m) : Composing n m := by
  induction n generalizing m with
  | zero =>
    exact ⟨h, fun _ => .short _, fun _ _ => .short _, .short _, fun _ _ => .short _,
      fun _ => .short _, .short _, .short _, .short _, .short _, .short _, .short _, .short _,
      .short _, .short _⟩
  | succ n ih =>
    obtain ⟨m, rfl⟩ : ∃ k, m = k + 1 := Nat.exists_eq_add_one.2 (Nat.zero_lt_of_lt h)
    have ih := ih (Nat.le_of_succ_le_succ h)
    exact ⟨h, ih.expr_succ, ih.continuations_succ, ih.operand_succ, ih.continuation_succ,
      ih.arguments_succ, ih.functionRest_succ, ih.blockRest_succ, ih.declaration_succ,
      ih.unguarded_succ, ih.varDeclaration_succ, ih.expressionStatement_succ, ih.statement_succ,
      ih.initializer_succ, ih.forStatement_succ⟩

theorem composed_declarations {n m : Nat} (h : n ≤ m) :
    Composed (declarations n) (declarations m) := by
  induction n generalizing m with
  | zero => exact .short _
  | succ n ih =>
    obtain ⟨m, rfl⟩ : ∃ k, m = k + 1 := Nat.exists_eq_add_one.2 (Nat.zero_lt_of_lt h)
    have hle := Nat.le_of_succ_le_succ h
    refine composed_atEnd.bind fun e => ?_
    split
    · exact .pure []
    · exact (composing hle).declaration.bind fun first => (ih hle).bind fun rest => .pure _

/-! ## The number of steps -/

/-- Steps beyond those that suffice change nothing. -/
theorem Composed.eq_of_ne_exhausted {α : Type} {x y : Read α} (h : Composed x y) {r : Reading}
    (hr : x r ≠ .exhausted) : y r = x r := by
  induction h generalizing r with
  | short => exact absurd rfl hr
  | bind _ _ ih ihk =>
    rename_i x y F G _ _
    have hx : x r ≠ .exhausted := by
      intro hx
      rw [Action.bind_apply, hx] at hr
      exact hr rfl
    rw [Action.bind_apply, Action.bind_apply, ih hx]
    rw [Action.bind_apply] at hr
    cases hs : x r with
    | ok a s =>
      rw [hs] at hr
      exact ihk a hr
    | error e s => rfl
    | exhausted => exact absurd hs hx
  | attempt _ ih =>
    rename_i x y _
    have hx : x r ≠ .exhausted := by
      intro hx
      rw [Action.attempt, hx] at hr
      exact hr rfl
    rw [Action.attempt, Action.attempt, ih hx]
  | _ => rfl

theorem not_tooFew_budget {r : Reading} (hr : r.cursor.Closed) : ¬TooFew r.budget r 8 := by
  have hlen := hr.length_ahead_le
  unfold TooFew Reading.budget
  omega

end Read

/-- A program is read to its end with any number of steps that suffices for its tokens. -/
theorem Program.ofTokens_terminates (tokens : List Token) (nextId : NodeId) :
    ∃ ss s, (∀ n, 16 * (beforeEof tokens).length + 8 ≤ n →
        Read.declarations n (.start tokens nextId) = .ok ss s) ∧
      ofTokens tokens nextId = ⟨ss, s.faults.reverse, s.nextId⟩ := by
  have hclosed : (Reading.start tokens nextId).cursor.Closed := Cursor.closed_ofTokens tokens
  have hahead : (Reading.start tokens nextId).cursor.ahead = beforeEof tokens :=
    Cursor.ahead_ofTokens tokens
  obtain ⟨ss, s, hread, hprogram, -, -⟩ :=
    @exists_declarations (fun _ => True) (fun _ _ => trivial) tokens nextId
  have hfew : Read.declarations (16 * (beforeEof tokens).length + 8) (.start tokens nextId) ≠
      .exhausted := by
    refine (@Read.declarations_meets (fun _ => True) _ (fun _ _ => trivial) _ hclosed).ne_exhausted
      fun hshort => ?_
    unfold Read.TooFew at hshort
    rw [hahead] at hshort
    exact Nat.lt_irrefl _ hshort
  have hbudget : 16 * (beforeEof tokens).length + 8 ≤ (Reading.start tokens nextId).budget :=
    hahead ▸ Nat.le_of_not_lt (Read.not_tooFew_budget hclosed)
  refine ⟨ss, s, fun n hn => ?_, hprogram⟩
  rw [(Read.composed_declarations hn).eq_of_ne_exhausted hfew,
    ← (Read.composed_declarations hbudget).eq_of_ne_exhausted hfew, hread]

end LoxLang
