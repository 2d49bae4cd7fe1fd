import LoxLang.Proofs.Printing.Statement
import LoxLang.Proofs.Syntax.Recognition

/-!
Printing undoes reading.

Whatever a text is, the statements that were read from it are derived by the grammar from tokens of
the text.  So their printed text is derived as the same statements, by induction on the derivation
(`declarations_printed`), and reading it again gives them, up to lines and node numbers, without a
fault other than a list that is too long (`Program.read_source`).
-/

namespace LoxLang

namespace Grammar

variable {fits : Nat → Prop}

/-! ## The parts of a derivation -/

theorem Parameters.subset {ts params : List Token} (h : Parameters ts params) : params ⊆ ts := by
  induction h with
  | one => exact List.Subset.refl _
  | more _ _ _ ih =>
    exact List.cons_subset_cons _ (List.subset_cons_of_subset _ ih)

theorem ParameterList.subset {ts params : List Token} (h : ParameterList ts params) :
    params ⊆ ts := by
  cases h with
  | none => exact List.Subset.refl _
  | some hps => exact hps.subset

theorem Arguments.ne_nil {ts : List Token} {es : List Expr} (h : Arguments fits ts es) :
    es ≠ [] := by
  cases h with
  | one => exact List.cons_ne_nil _ _
  | more => exact List.cons_ne_nil _ _

theorem numbers_node (level : Level) (l r : Expr) (operator : Token) :
    (level.node l operator r).numbers = l.numbers ++ r.numbers := by
  cases level <;> rfl

/-- A loop has the numbers of its clauses and of its body. -/
theorem forall_numbers_forLoop {p : Float → Prop} {initializer : Option Stmt}
    {condition increment : Option Expr} {s : Stmt}
    (h : ∀ x ∈ (forLoop initializer condition increment s).numbers, p x) :
    (∀ x ∈ Stmt.numbersOption initializer, p x) ∧ (∀ x ∈ Expr.numbersOption condition, p x) ∧
      (∀ x ∈ Expr.numbersOption increment, p x) ∧ ∀ x ∈ s.numbers, p x := by
  have hcondition : ∀ x, x ∈ (condition.getD (.constant (.bool true))).numbers ↔
      x ∈ Expr.numbersOption condition := by
    cases condition with
    | none => exact fun _ => Iff.rfl
    | some e => exact fun _ => Iff.rfl
  cases initializer with
  | none =>
    cases increment with
    | none =>
      simp only [forLoop, Stmt.numbers, List.forall_mem_append, hcondition] at h
      exact ⟨fun _ hx => (List.not_mem_nil hx).elim, h.1, fun _ hx => (List.not_mem_nil hx).elim, h.2⟩
    | some e =>
      simp only [forLoop, Stmt.numbers, Stmt.numbersAll, List.forall_mem_append, hcondition] at h
      exact ⟨fun _ hx => (List.not_mem_nil hx).elim, h.1, h.2.2.1, h.2.1⟩
  | some i =>
    cases increment with
    | none =>
      simp only [forLoop, Stmt.numbers, Stmt.numbersAll, List.forall_mem_append, hcondition] at h
      exact ⟨h.1, h.2.1.1, fun _ hx => (List.not_mem_nil hx).elim, h.2.1.2⟩
    | some e =>
      simp only [forLoop, Stmt.numbers, Stmt.numbersAll, List.forall_mem_append, hcondition] at h
      exact ⟨h.1, h.2.1.1, h.2.1.2.2.1, h.2.1.2.1⟩

/-! ## Induction on the derivation -/

/-- Every token is one that a text has. -/
def Genuines (ts : List Token) : Prop := ∀ t ∈ ts, t.Genuine

def Finites (xs : List Float) : Prop := ∀ x ∈ xs, Number.isFinite x = true

mutual

theorem expression_printed {level : Level} {ts : List Token} {e : Expr}
    (h : Expression fits level ts e) :
    Genuines ts → Finites e.numbers → ExpressionPrinted fits level e :=
  match h with
  | .assign id hn _ hv => fun hg hf => by
    simp only [Genuines, List.forall_mem_cons] at hg
    exact printed_assign id hg.1 hn (expression_printed hv hg.2.2 hf)
  | .operation ho hl hr => fun hg hf => by
    rw [numbers_node] at hf
    simp only [Genuines, Finites, List.forall_mem_append, List.forall_mem_cons] at hg hf
    exact printed_operation hg.2.1 ho (expression_printed hl hg.1 hf.1)
      (expression_printed hr hg.2.2 hf.2)
  | .unary ho he => fun hg hf => by
    simp only [Genuines, List.forall_mem_cons] at hg
    exact printed_unary hg.1 ho (expression_printed he hg.2 hf)
  | .call ho hc hl has hfits => fun hg hf => by
    simp only [Genuines, Finites, Expr.numbers, List.forall_mem_append, List.forall_mem_cons] at hg hf
    exact printed_call hg.2.2.2.1 hc (expression_printed hl hg.1 hf.1)
      (argumentList_printed has hg.2.2.1 hf.2) hfits
  | .number ht => fun hg hf =>
    printed_number (hg _ List.mem_cons_self) ht (hf _ List.mem_cons_self)
  | .string ht => fun hg _ => printed_string (hg _ List.mem_cons_self) ht
  | .true _ => fun _ _ => printed_constant rfl rfl (by decide) fun _ ht => .true ht
  | .false _ => fun _ _ => printed_constant rfl rfl (by decide) fun _ ht => .false ht
  | .nil _ => fun _ _ => printed_constant rfl rfl (by decide) fun _ ht => .nil ht
  | .read id hn => fun hg _ => printed_read id (hg _ List.mem_cons_self) hn
  | .grouping _ _ he => fun hg hf => by
    simp only [Genuines, List.forall_mem_append, List.forall_mem_cons] at hg
    exact printed_grouping (expression_printed he hg.2.1 hf)
  | .function hk hfun => fun hg hf => by
    simp only [Genuines, List.forall_mem_cons] at hg
    exact printed_lambda hg.1 hk (function_printed hfun hg.2 hf)
  | .tighter he => fun hg hf => printed_tighter (expression_printed he hg hf)
termination_by structural h

theorem argumentList_printed {ts : List Token} {es : List Expr} (h : ArgumentList fits ts es) :
    Genuines ts → Finites (Expr.numbersAll es) → ArgumentListPrinted fits es :=
  match h with
  | .none => fun _ _ => printed_noArguments
  | .some has => fun hg hf => printed_argumentList (arguments_printed has hg hf)
termination_by structural h

theorem arguments_printed {ts : List Token} {es : List Expr} (h : Arguments fits ts es) :
    Genuines ts → Finites (Expr.numbersAll es) → ArgumentsPrinted fits es :=
  match h with
  | .one he => fun hg hf => by
    simp only [Finites, Expr.numbersAll, List.append_nil] at hf
    exact printed_argument (expression_printed he hg hf)
  | .more _ he hes => fun hg hf => by
    simp only [Genuines, Finites, Expr.numbersAll, List.forall_mem_append,
      List.forall_mem_cons] at hg hf
    exact printed_arguments (expression_printed he hg.1 hf.1) (arguments_printed hes hg.2.2 hf.2)
      hes.ne_nil
termination_by structural h

theorem function_printed {ts params : List Token} {body : List Stmt}
    (h : Function fits ts params body) :
    Genuines ts → Finites (Stmt.numbersAll body) → FunctionPrinted fits params body :=
  match h with
  | .mk _ _ hps hfits hb => fun hg hf => by
    simp only [Genuines, List.forall_mem_append, List.forall_mem_cons] at hg
    exact printed_function hps (fun t ht => hg.2.1 t (hps.subset ht)) hfits
      (block_printed hb hg.2.2.2 hf)
termination_by structural h

theorem block_printed {ts : List Token} {body : List Stmt} (h : Block fits ts body) :
    Genuines ts → Finites (Stmt.numbersAll body) → BlockPrinted fits body :=
  match h with
  | .mk _ _ hds => fun hg hf => by
    simp only [Genuines, List.forall_mem_append, List.forall_mem_cons] at hg
    exact printed_block (declarations_printed hds hg.2.1 hf)
termination_by structural h

theorem declarations_printed {ts : List Token} {ss : List Stmt} (h : Declarations fits ts ss) :
    Genuines ts → Finites (Stmt.numbersAll ss) → LinesPrinted fits ss :=
  match h with
  | .nil => fun _ _ => printed_nil
  | .cons hd hs => fun hg hf => by
    simp only [Genuines, Finites, Stmt.numbersAll, List.forall_mem_append] at hg hf
    exact printed_cons (declaration_printed hd hg.1 hf.1) (declarations_printed hs hg.2 hf.2)
termination_by structural h

theorem declaration_printed {ts : List Token} {s : Stmt} (h : Declaration fits ts s) :
    Genuines ts → Finites s.numbers → PrintedAs (Declaration fits) s :=
  match h with
  | .function _ hn hfun => fun hg hf => by
    simp only [Genuines, List.forall_mem_cons] at hg
    exact printed_functionDeclaration hg.2.1 hn (function_printed hfun hg.2.2 hf)
  | .var hv => fun hg hf => printed_varDeclaration (varDeclaration_printed hv hg hf)
  | .statement hs => fun hg hf => printed_statementDeclaration (statement_printed hs hg hf)
termination_by structural h

theorem varDeclaration_printed {ts : List Token} {s : Stmt} (h : VarDeclaration fits ts s) :
    Genuines ts → Finites s.numbers → PrintedAs (VarDeclaration fits) s :=
  match h with
  | .unset _ hn _ => fun hg _ => by
    simp only [Genuines, List.forall_mem_cons] at hg
    exact printed_unset hg.2.1 hn
  | .set _ hn _ _ he => fun hg hf => by
    simp only [Genuines, List.forall_mem_append, List.forall_mem_cons] at hg
    exact printed_set hg.2.1 hn (expression_printed he hg.2.2.2.1 hf)
termination_by structural h

theorem expressionStatement_printed {ts : List Token} {s : Stmt}
    (h : ExpressionStatement fits ts s) :
    Genuines ts → Finites s.numbers → PrintedAs (ExpressionStatement fits) s :=
  match h with
  | .mk _ he => fun hg hf => by
    simp only [Genuines, List.forall_mem_append] at hg
    exact printed_expressionStatement (expression_printed he hg.1 hf)
termination_by structural h

theorem clause_printed {ts : List Token} {o : Option Expr} (h : Clause fits ts o) :
    Genuines ts → Finites (Expr.numbersOption o) → ClausePrinted fits o :=
  match h with
  | .none => fun _ _ _ he => nomatch he
  | .some he => fun hg hf e hmem => by
    cases hmem
    exact expression_printed he hg hf
termination_by structural h

theorem initializer_printed {ts : List Token} {o : Option Stmt} (h : Initializer fits ts o) :
    Genuines ts → Finites (Stmt.numbersOption o) → InitializerPrinted fits o :=
  match h with
  | .none _ => fun _ _ _ hs => nomatch hs
  | .var hv => fun hg hf s hmem => by
    cases hmem
    exact printed_varDeclaration (varDeclaration_printed hv hg hf)
  | .expression he => fun hg hf s hmem => by
    cases hmem
    have hplain := expressionStatement_printed he hg hf
    exact printed_statementDeclaration (printed_plain hplain : PrintedAs (StatementWithin fits false) _)
termination_by structural h

theorem statement_printed {dangling : Bool} {ts : List Token} {s : Stmt}
    (h : Statement fits dangling ts s) :
    Genuines ts → Finites s.numbers → PrintedAs (StatementWithin fits dangling) s :=
  match h with
  | .expression he => fun hg hf => printed_plain (expressionStatement_printed he hg hf)
  | .print hk _ he => fun hg hf => by
    simp only [Genuines, List.forall_mem_append, List.forall_mem_cons] at hg
    exact printed_print hg.1 hk (expression_printed he hg.2.1 hf)
  | .return hk _ hc => fun hg hf => by
    simp only [Genuines, List.forall_mem_append, List.forall_mem_cons] at hg
    exact printed_return hg.1 hk (clause_printed hc hg.2.1 hf)
  | .block hb => fun hg hf => printed_blockStatement (block_printed hb hg hf)
  | .ifThen _ _ _ hc hs => fun hg hf => by
    simp only [Genuines, Finites, Stmt.numbers, List.forall_mem_append,
      List.forall_mem_cons] at hg hf
    exact printed_ifThen (expression_printed hc hg.2.2.1 hf.1)
      (statement_printed hs hg.2.2.2.2 hf.2.1)
  | .ifElse _ _ _ _ hc hs ht => fun hg hf => by
    simp only [Genuines, Finites, Stmt.numbers, List.forall_mem_append,
      List.forall_mem_cons] at hg hf
    exact printed_ifElse (expression_printed hc hg.2.2.1 hf.1)
      (statement_printed hs hg.2.2.2.2.1 hf.2.1) (statement_printed ht hg.2.2.2.2.2.2 hf.2.2)
  | .while _ _ _ hc hs => fun hg hf => by
    simp only [Genuines, Finites, Stmt.numbers, List.forall_mem_append,
      List.forall_mem_cons] at hg hf
    exact printed_while (expression_printed hc hg.2.2.1 hf.1) (statement_printed hs hg.2.2.2.2 hf.2)
  | .for _ _ _ _ hi hc he hs => fun hg hf => by
    obtain ⟨hfi, hfc, hfe, hfs⟩ := forall_numbers_forLoop hf
    simp only [Genuines, List.forall_mem_append, List.forall_mem_cons] at hg
    exact printed_forLoop (initializer_printed hi hg.2.2.1 hfi) (clause_printed hc hg.2.2.2.1 hfc)
      (clause_printed he hg.2.2.2.2.2.1 hfe) (statement_printed hs hg.2.2.2.2.2.2.2 hfs)
termination_by structural h

end

end Grammar

/-! ## The round trip -/

open Grammar

theorem genuines_beforeEof (text : String) : Genuines (beforeEof (Token.ofText text)) := by
  intro t ht
  have hmem : t ∈ Token.ofText text := (List.takeWhile_sublist _).subset ht
  have hkind : t.kind ≠ .eof := by simpa using List.mem_takeWhile_imp ht
  exact Token.genuine_of_mem hmem hkind

/-- The tokens that a text spells are those before its end. -/
theorem Spells.beforeEof_ofText {text : String} {ts : List Token} (h : Spells 1 text.toList ts) :
    beforeEof (Token.ofText text) = ts := by
  have htokens := h.ofText.1
  have hgenuine : Genuines ts := by
    intro t ht
    rw [← List.append_cancel_right htokens] at ht
    exact genuine_of_mem_segmentsUpTo _ _ _ ht
  rw [htokens]
  refine (takeWhile_append_stop (fun t ht => ?_) fun t ht => ?_).1
  · exact decide_eq_true (hgenuine t ht).kind_ne_eof
  · cases ht
    rfl

namespace Program

/-- Reading the printed statements of any text gives these statements again, up to lines and node
numbers, if their numbers are finite.  The printed text has no lexical fault, and no other fault
than lists that are too long. -/
theorem read_source (source : String) (nextId nextId' : NodeId)
    (hfinite : ∀ x ∈ Stmt.numbersAll (ofTokens (Token.ofText source) nextId).statements,
      Number.isFinite x = true) :
    let ss := (ofTokens (Token.ofText source) nextId).statements
    let text := sourceProgram ss
    let again := ofTokens (Token.ofText text) nextId'
    Token.errorsIn text = [] ∧
      (∀ e ∈ again.faults, e.cause = .tooManyArguments ∨ e.cause = .tooManyParameters) ∧
      bareAll again.statements = bareAll ss ∧
      parenthesizedProgram again.statements = parenthesizedProgram ss ∧
      sourceProgram again.statements = text := by
  intro ss text again
  obtain ⟨kept, hkept, hderived⟩ := statements_derived (Token.ofText source) nextId
  have hgenuine : Genuines kept := fun t ht => genuines_beforeEof source t (hkept.subset ht)
  obtain ⟨ts, ⟨ss', hderived', hbare⟩, hwrites⟩ :=
    declarations_printed hderived hgenuine hfinite 0 1
  have hspells : Spells 1 text.toList ts := by
    have hs := hwrites [] [] (fun _ _ => rfl) (.nil _)
    rwa [List.append_nil, List.append_nil] at hs
  rw [← hspells.beforeEof_ofText] at hderived'
  obtain ⟨hstatements, hfaults, -⟩ := ofTokens_of_derived hderived' nextId'
  have hagain : bareAll again.statements = bareAll ss := by
    rw [← bareAll_unnumbered, hstatements, bareAll_unnumbered, hbare]
  refine ⟨hspells.ofText.2, hfaults, hagain, ?_, ?_⟩
  · rw [← parenthesized_bareAll, hagain, parenthesized_bareAll]
  · rw [← source_bareAll, hagain, source_bareAll]

/-- A loop with clauses is read again from the `while` that it was printed as. -/
theorem read_source_loop :
    let ss := (ofTokens (Token.ofText "for (var i = 0; i < 2.5; i = i + 1) print -i;") 0).statements
    (∀ x ∈ Stmt.numbersAll ss, Number.isFinite x = true) ∧
      bareAll (ofTokens (Token.ofText (sourceProgram ss)) 0).statements = bareAll ss := by
  intro ss
  have hfinite : ∀ x ∈ Stmt.numbersAll ss, Number.isFinite x = true := by decide +kernel
  exact ⟨hfinite, (read_source _ 0 0 hfinite).2.2.1⟩

end Program

end LoxLang
