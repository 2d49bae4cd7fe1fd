import LoxLang.Proofs.Syntax.StatementCompleteness
import LoxLang.Proofs.Syntax.StatementDerivation

/-!
A program is read without faults exactly when the grammar derives it.

The tree is the derived one, up to the numbers of its nodes.
-/

namespace LoxLang

open Grammar Reading Outcome

namespace Read

variable {fits : Nat → Prop}

mutual

theorem expression_read {level : Level} {ts : List Token} {e : Expr}
    (h : Expression fits level ts e) : ExpressionRead fits level ts e :=
  match h with
  | .assign id hn heq hv => assign_read id hn heq (expression_read hv)
  | .operation ho hl hr => operation_read ho (expression_read hl) (expression_read hr)
  | .unary ho he => unary_read ho (expression_read he)
  | .call ho hc hl has hf => call_read ho hc (expression_read hl) (argumentList_read has) hf
  | .number ht => leaf_read fun n r hk => by
    rw [operand, Action.bind_ok (rfl : kind r = _), hk, ht]
  | .string ht => leaf_read fun n r hk => by
    rw [operand, Action.bind_ok (rfl : kind r = _), hk, ht]
  | .true ht => leaf_read fun n r hk => by
    rw [operand, Action.bind_ok (rfl : kind r = _), hk, ht]
  | .false ht => leaf_read fun n r hk => by
    rw [operand, Action.bind_ok (rfl : kind r = _), hk, ht]
  | .nil ht => leaf_read fun n r hk => by
    rw [operand, Action.bind_ok (rfl : kind r = _), hk, ht]
  | .read id hn => name_read id hn
  | .grouping ho hc he => grouping_read ho hc (expression_read he)
  | .function hk hf => lambda_read hk (functionRest_read hf)
  | .tighter he => expressionRead_tighter (expression_read he)
termination_by structural h

theorem argumentList_read {ts : List Token} {es : List Expr} (h : ArgumentList fits ts es) :
    ArgumentListRead fits ts es :=
  match h with
  | .none => argumentList_none
  | .some has => argumentList_some has.starts (argumentsRest_read has)
termination_by structural h

theorem argumentsRest_read {ts : List Token} {es : List Expr} (h : Arguments fits ts es) :
    ArgumentsRead fits ts es :=
  match h with
  | .one he => argument_read (expression_read he)
  | .more hc he hes => arguments_read hc (expression_read he) (argumentsRest_read hes)
termination_by structural h

theorem functionRest_read {ts params : List Token} {body : List Stmt}
    (h : Function fits ts params body) : FunctionRead fits ts params body :=
  match h with
  | .mk ho hc hps hf (.mk hcurly hclosing hds) =>
    function_read ho hc hps hf hcurly hclosing (declarations_read hds).1
termination_by structural h

theorem declarations_read {ts : List Token} {ss : List Stmt} (h : Declarations fits ts ss) :
    BlockRead fits ts ss ∧ ProgramRead fits ts ss :=
  match h with
  | .nil => ⟨block_nil, program_nil⟩
  | .cons hd hs =>
    have hne := hd.firstKind_ne
    ⟨block_cons ⟨hne.1, hne.2.1⟩ hd.ne_nil (fun _ => hs.firstKind_ne) (declaration_read hd)
      (declarations_read hs).1,
    program_cons hd.ne_nil hs.firstKind_ne (declaration_read hd) (declarations_read hs).2⟩
termination_by structural h

theorem declaration_read {ts : List Token} {d : Stmt} (h : Declaration fits ts d) :
    DeclarationRead fits ts d :=
  match h with
  | .function hk hn hf => functionDeclaration_read hk hn (functionRest_read hf)
  | .var hv => varDeclaration_read hv.starts hv.ne_nil (varDeclarationRest_read hv)
  | .statement hs => statementDeclaration_read hs.starts (statement_read hs)
termination_by structural h

theorem varDeclarationRest_read {ts : List Token} {d : Stmt} (h : VarDeclaration fits ts d) :
    VarDeclarationRead fits ts d :=
  match h with
  | .unset _ hn hs => unset_read _ hn hs
  | .set _ hn heq hs he => set_read _ hn heq hs (expression_read he)
termination_by structural h

theorem simpleStatement_read {ts : List Token} {d : Stmt} (h : ExpressionStatement fits ts d) :
    ExpressionStatementRead fits ts d :=
  match h with
  | .mk hs he => expressionStatement_read hs (expression_read he)
termination_by structural h

theorem clause_read {ts : List Token} {o : Option Expr} (h : Clause fits ts o) :
    ClauseRead fits ts o :=
  match h with
  | .none => clause_none
  | .some he => clause_some he.starts (expression_read he)
termination_by structural h

theorem initializer_read {ts : List Token} {o : Option Stmt} (h : Initializer fits ts o) :
    InitializerRead fits ts o :=
  match h with
  | .none hs => initializer_none hs
  | .var hv => initializer_var hv.starts hv.ne_nil (varDeclarationRest_read hv)
  | .expression he => initializer_expression he.starts (simpleStatement_read he)
termination_by structural h

theorem statement_read {dangling : Bool} {ts : List Token} {d : Stmt}
    (h : Statement fits dangling ts d) : StatementRead fits dangling ts d :=
  match h with
  | .expression he => plain_read he.starts (simpleStatement_read he)
  | .print hk hs he => print_read hk hs (expression_read he)
  | .return hk hs hc => return_read hk hs (clause_read hc)
  | .block (.mk ho hc hds) => block_read ho hc (declarations_read hds).1
  | .ifThen hk ho hc he hs => ifThen_read hk ho hc (expression_read he) (statement_read hs)
  | .ifElse hk ho hc helse he hs hs' =>
    ifElse_read hk ho hc helse (expression_read he) (statement_read hs) (statement_read hs')
  | .while hk ho hc he hs => while_read hk ho hc (expression_read he) (statement_read hs)
  | .for hk ho hs hc hi hcs hes hd =>
    for_read hk ho hs hc (initializer_read hi) (clause_read hcs) (clause_read hes)
      (statement_read hd)
termination_by structural h

end

end Read

namespace Program

/-- What the grammar derives is read, with no faults but lists that are too long. -/
theorem ofTokens_of_derived {fits : Nat → Prop} {tokens : List Token} {ss : List Stmt}
    (h : Declarations fits (beforeEof tokens) ss) (nextId : NodeId) :
    unnumbered (ofTokens tokens nextId).statements = unnumbered ss ∧
      (∀ e ∈ (ofTokens tokens nextId).faults, Lengthy e) ∧
      ((∀ k, fits k → k ≤ maxArity) → (ofTokens tokens nextId).faults = []) := by
  have hclosed : (Reading.start tokens nextId).cursor.Closed := Cursor.closed_ofTokens tokens
  have hlen := hclosed.length_ahead_le
  have hread := (Read.declarations_read h).2 (Reading.start tokens nextId).budget _ hclosed
    (Cursor.ahead_ofTokens tokens)
  unfold ofTokens Read.withBudget
  cases hd : Read.declarations (Reading.start tokens nextId).budget (.start tokens nextId) with
  | ok qs s =>
    rw [hd] at hread
    obtain ⟨hs, hq⟩ := hread
    obtain ⟨new, hn, hlengthy, hnone⟩ := hs.faults
    have hfaults : s.faults = new := hn.trans (List.append_nil new)
    refine ⟨hq, ?_, ?_⟩
    · intro e he
      exact hlengthy e (hfaults ▸ List.mem_reverse.1 he)
    · intro hf
      show s.faults.reverse = []
      rw [hfaults, hnone hf]
      rfl
  | error e s =>
    rw [hd] at hread
    exact hread.elim
  | exhausted =>
    rw [hd] at hread
    have hshort : (Reading.start tokens nextId).budget <
        16 * (Reading.start tokens nextId).cursor.ahead.length + 8 := hread
    unfold Reading.budget at hshort
    omega

/-- Reading finds no fault and gives a tree exactly when the grammar derives the tree from the
tokens before the end, with lists of at most 255 arguments or parameters. -/
theorem faults_eq_nil_iff_derived (tokens : List Token) (nextId : NodeId) (ss : List Stmt) :
    ((ofTokens tokens nextId).faults = [] ∧
        unnumbered (ofTokens tokens nextId).statements = unnumbered ss) ↔
      ∃ ss', unnumbered ss' = unnumbered ss ∧
        Declarations (fun count => count ≤ 255) (beforeEof tokens) ss' := by
  constructor
  · rintro ⟨hf, hs⟩
    exact ⟨_, hs, derived_of_faults_eq_nil hf⟩
  · rintro ⟨ss', hs, hd⟩
    obtain ⟨hq, -, hf⟩ := ofTokens_of_derived hd nextId
    exact ⟨hf fun _ hk => hk, hq.trans hs⟩

end Program

end LoxLang
