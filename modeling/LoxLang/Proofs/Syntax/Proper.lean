import LoxLang.Proofs.Syntax.Grammar

/-!
Declarations stand only where a declaration may stand.

In a proper tree neither a branch of an `if` nor the body of a `while` is a declaration.  Every
tree that the grammar derives is proper (`Grammar.declarations_proper`).
-/

namespace LoxLang

/-- A statement that declares nothing. -/
def Stmt.Plain : Stmt → Prop
  | .var _ _ | .function _ _ _ => False
  | _ => True

mutual

def Expr.Proper : Expr → Prop
  | .constant _ => True
  | .grouping inner => inner.Proper
  | .unary _ operand => operand.Proper
  | .binary left _ right => left.Proper ∧ right.Proper
  | .logical left _ right => left.Proper ∧ right.Proper
  | .read _ _ => True
  | .assign _ _ value => value.Proper
  | .call callee _ arguments => callee.Proper ∧ Expr.ProperAll arguments
  | .function _ _ body => Stmt.ProperAll body
termination_by structural e => e

def Expr.ProperAll : List Expr → Prop
  | [] => True
  | e :: es => e.Proper ∧ Expr.ProperAll es
termination_by structural es => es

def Expr.ProperOption : Option Expr → Prop
  | none => True
  | some e => e.Proper
termination_by structural e => e

def Stmt.Proper : Stmt → Prop
  | .expression value => value.Proper
  | .print _ value => value.Proper
  | .var _ initializer => Expr.ProperOption initializer
  | .block body => Stmt.ProperAll body
  | .ifElse condition thenBranch elseBranch =>
    condition.Proper ∧ (thenBranch.Proper ∧ thenBranch.Plain) ∧ Stmt.ProperBranch elseBranch
  | .while condition body => condition.Proper ∧ body.Proper ∧ body.Plain
  | .function _ _ body => Stmt.ProperAll body
  | .return _ value => Expr.ProperOption value
termination_by structural s => s

def Stmt.ProperAll : List Stmt → Prop
  | [] => True
  | s :: ss => s.Proper ∧ Stmt.ProperAll ss
termination_by structural ss => ss

def Stmt.ProperBranch : Option Stmt → Prop
  | none => True
  | some s => s.Proper ∧ s.Plain
termination_by structural s => s

end

namespace Grammar

variable {fits : Nat → Prop}

theorem proper_node {level : Level} {l r : Expr} {operator : Token} (hl : l.Proper)
    (hr : r.Proper) : (level.node l operator r).Proper := by
  cases level <;> exact ⟨hl, hr⟩

theorem proper_forLoop {initializer : Option Stmt} {condition increment : Option Expr} {s : Stmt}
    (hi : ∀ i ∈ initializer, i.Proper) (hc : Expr.ProperOption condition)
    (he : Expr.ProperOption increment) (hs : s.Proper ∧ s.Plain) :
    (forLoop initializer condition increment s).Proper ∧
      (forLoop initializer condition increment s).Plain := by
  have hcondition : (condition.getD (.constant (.bool true))).Proper := by
    cases condition with
    | none => exact trivial
    | some c => exact hc
  have hbody : ∀ e ∈ increment, (Stmt.block [s, .expression e]).Proper := by
    intro e hmem
    cases hmem
    exact ⟨hs.1, he, trivial⟩
  cases initializer with
  | none =>
    cases increment with
    | none => exact ⟨⟨hcondition, hs⟩, trivial⟩
    | some e => exact ⟨⟨hcondition, hbody e rfl, trivial⟩, trivial⟩
  | some i =>
    cases increment with
    | none => exact ⟨⟨hi i rfl, ⟨hcondition, hs⟩, trivial⟩, trivial⟩
    | some e => exact ⟨⟨hi i rfl, ⟨hcondition, hbody e rfl, trivial⟩, trivial⟩, trivial⟩

mutual

theorem expression_proper {level : Level} {ts : List Token} {e : Expr}
    (h : Expression fits level ts e) : e.Proper :=
  match h with
  | .assign _ _ _ hv => (expression_proper hv :)
  | .operation _ hl hr => proper_node (expression_proper hl) (expression_proper hr)
  | .unary _ he => (expression_proper he :)
  | .call _ _ hl has _ => ⟨expression_proper hl, argumentList_proper has⟩
  | .number _ | .string _ | .true _ | .false _ | .nil _ | .read _ _ => trivial
  | .grouping _ _ he => (expression_proper he :)
  | .function _ hf => (function_proper hf :)
  | .tighter he => expression_proper he
termination_by structural h

theorem argumentList_proper {ts : List Token} {es : List Expr} (h : ArgumentList fits ts es) :
    Expr.ProperAll es :=
  match h with
  | .none => trivial
  | .some has => arguments_proper has
termination_by structural h

theorem arguments_proper {ts : List Token} {es : List Expr} (h : Arguments fits ts es) :
    Expr.ProperAll es :=
  match h with
  | .one he => ⟨expression_proper he, trivial⟩
  | .more _ he hes => ⟨expression_proper he, arguments_proper hes⟩
termination_by structural h

theorem function_proper {ts params : List Token} {body : List Stmt}
    (h : Function fits ts params body) : Stmt.ProperAll body :=
  match h with
  | .mk _ _ _ _ hb => block_proper hb
termination_by structural h

theorem block_proper {ts : List Token} {body : List Stmt} (h : Block fits ts body) :
    Stmt.ProperAll body :=
  match h with
  | .mk _ _ hds => declarations_proper hds
termination_by structural h

theorem declarations_proper {ts : List Token} {ss : List Stmt} (h : Declarations fits ts ss) :
    Stmt.ProperAll ss :=
  match h with
  | .nil => trivial
  | .cons hd hs => ⟨declaration_proper hd, declarations_proper hs⟩
termination_by structural h

theorem declaration_proper {ts : List Token} {s : Stmt} (h : Declaration fits ts s) : s.Proper :=
  match h with
  | .function _ _ hf => (function_proper hf :)
  | .var hv => varDeclaration_proper hv
  | .statement hs => (statement_proper hs).1
termination_by structural h

theorem varDeclaration_proper {ts : List Token} {s : Stmt} (h : VarDeclaration fits ts s) :
    s.Proper :=
  match h with
  | .unset _ _ _ => trivial
  | .set _ _ _ _ he => (expression_proper he :)
termination_by structural h

theorem expressionStatement_proper {ts : List Token} {s : Stmt}
    (h : ExpressionStatement fits ts s) : s.Proper ∧ s.Plain :=
  match h with
  | .mk _ he => ⟨expression_proper he, trivial⟩
termination_by structural h

theorem clause_proper {ts : List Token} {o : Option Expr} (h : Clause fits ts o) :
    Expr.ProperOption o :=
  match h with
  | .none => trivial
  | .some he => (expression_proper he :)
termination_by structural h

theorem initializer_proper {ts : List Token} {o : Option Stmt} (h : Initializer fits ts o) :
    ∀ i ∈ o, i.Proper :=
  match h with
  | .none _ => fun _ hi => nomatch hi
  | .var hv => fun i hi => by
    cases hi
    exact varDeclaration_proper hv
  | .expression he => fun i hi => by
    cases hi
    exact (expressionStatement_proper he).1
termination_by structural h

theorem statement_proper {dangling : Bool} {ts : List Token} {s : Stmt}
    (h : Statement fits dangling ts s) : s.Proper ∧ s.Plain :=
  match h with
  | .expression he => expressionStatement_proper he
  | .print _ _ he => ⟨expression_proper he, trivial⟩
  | .return _ _ hc => ⟨clause_proper hc, trivial⟩
  | .block hb => ⟨block_proper hb, trivial⟩
  | .ifThen _ _ _ hc hs => ⟨⟨expression_proper hc, statement_proper hs, trivial⟩, trivial⟩
  | .ifElse _ _ _ _ hc hs ht =>
    ⟨⟨expression_proper hc, statement_proper hs, statement_proper ht⟩, trivial⟩
  | .while _ _ _ hc hs => ⟨⟨expression_proper hc, statement_proper hs⟩, trivial⟩
  | .for _ _ _ _ hi hc he hs =>
    proper_forLoop (initializer_proper hi) (clause_proper hc) (clause_proper he)
      (statement_proper hs)
termination_by structural h

end

end Grammar

end LoxLang
