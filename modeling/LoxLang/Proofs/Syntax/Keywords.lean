import LoxLang.Proofs.Syntax.Grammar
import LoxLang.Proofs.Syntax.Relabel

/-!
How many nodes of a tree a boundary keyword starts.

Each boundary keyword in the tokens of a program starts exactly one node of its tree, so the tree
tells how many such keywords it was derived from (`Grammar.declarations_keywords`).
-/

namespace LoxLang

/-- The boundary keywords among the tokens. -/
def boundaries (tokens : List Token) : Nat := tokens.countP fun t => t.kind.isBoundary

@[simp] theorem boundaries_nil : boundaries [] = 0 := rfl

theorem boundaries_cons (t : Token) (ts : List Token) :
    boundaries (t :: ts) = (if t.kind.isBoundary then 1 else 0) + boundaries ts := by
  rw [boundaries, List.countP_cons, Nat.add_comm]
  rfl

@[simp] theorem boundaries_append (ts us : List Token) :
    boundaries (ts ++ us) = boundaries ts + boundaries us :=
  List.countP_append

theorem boundaries_keyword {t : Token} {k : Kind} (ts : List Token) (ht : t.kind = k)
    (hk : k.isBoundary = true) : boundaries (t :: ts) = boundaries ts + 1 := by
  rw [boundaries_cons, ht, if_pos hk, Nat.add_comm]

theorem boundaries_other {t : Token} {k : Kind} (ts : List Token) (ht : t.kind = k)
    (hk : k.isBoundary = false) : boundaries (t :: ts) = boundaries ts := by
  rw [boundaries_cons, ht, hk, if_neg Bool.false_ne_true, Nat.zero_add]

mutual

def Expr.keywords : Expr → Nat
  | .constant _ | .read _ _ => 0
  | .grouping inner => inner.keywords
  | .unary _ operand => operand.keywords
  | .binary left _ right => left.keywords + right.keywords
  | .logical left _ right => left.keywords + right.keywords
  | .assign _ _ value => value.keywords
  | .call callee _ arguments => callee.keywords + Expr.keywordsAll arguments
  | .function _ _ body => Stmt.keywordsAll body + 1
termination_by structural e => e

def Expr.keywordsAll : List Expr → Nat
  | [] => 0
  | e :: es => e.keywords + Expr.keywordsAll es
termination_by structural es => es

def Expr.keywordsOption : Option Expr → Nat
  | none => 0
  | some e => e.keywords
termination_by structural e => e

/-- The nodes of a statement that a boundary keyword starts, itself included. -/
def Stmt.keywords : Stmt → Nat
  | .expression value => value.keywords
  | .print _ value => value.keywords + 1
  | .var _ initializer => Expr.keywordsOption initializer + 1
  | .block body => Stmt.keywordsAll body
  | .ifElse condition thenBranch elseBranch =>
    condition.keywords + (thenBranch.keywords + Stmt.keywordsOption elseBranch) + 1
  | .while condition body => condition.keywords + body.keywords + 1
  | .function _ _ body => Stmt.keywordsAll body + 1
  | .return _ value => Expr.keywordsOption value + 1
termination_by structural s => s

def Stmt.keywordsAll : List Stmt → Nat
  | [] => 0
  | s :: ss => s.keywords + Stmt.keywordsAll ss
termination_by structural ss => ss

def Stmt.keywordsOption : Option Stmt → Nat
  | none => 0
  | some s => s.keywords
termination_by structural s => s

end

section Relabel

variable (f : Token → Token) (g : NodeId → NodeId)

mutual

theorem Expr.keywords_relabel (e : Expr) : (e.relabel f g).keywords = e.keywords :=
  match e with
  | .constant _ | .read _ _ => rfl
  | .grouping inner => inner.keywords_relabel
  | .unary _ operand => operand.keywords_relabel
  | .binary left _ right | .logical left _ right => by
    rw [Expr.relabel, Expr.keywords, left.keywords_relabel, right.keywords_relabel]
    rfl
  | .assign _ _ value => value.keywords_relabel
  | .call callee _ arguments => by
    rw [Expr.relabel, Expr.keywords, callee.keywords_relabel, Expr.keywordsAll_relabel arguments]
    rfl
  | .function _ _ body => congrArg (· + 1) (Stmt.keywordsAll_relabel body)
termination_by structural e

theorem Expr.keywordsAll_relabel (es : List Expr) :
    Expr.keywordsAll (Expr.relabelAll f g es) = Expr.keywordsAll es :=
  match es with
  | [] => rfl
  | e :: es => by
    rw [Expr.relabelAll, Expr.keywordsAll, e.keywords_relabel, Expr.keywordsAll_relabel es]
    rfl
termination_by structural es

theorem Expr.keywordsOption_relabel (o : Option Expr) :
    Expr.keywordsOption (Expr.relabelOption f g o) = Expr.keywordsOption o :=
  match o with
  | none => rfl
  | some e => e.keywords_relabel
termination_by structural o

theorem Stmt.keywords_relabel (s : Stmt) : (s.relabel f g).keywords = s.keywords :=
  match s with
  | .expression value => value.keywords_relabel
  | .print _ value => congrArg (· + 1) value.keywords_relabel
  | .var _ initializer => congrArg (· + 1) (Expr.keywordsOption_relabel initializer)
  | .block body => Stmt.keywordsAll_relabel body
  | .ifElse condition thenBranch elseBranch => by
    rw [Stmt.relabel, Stmt.keywords, condition.keywords_relabel, thenBranch.keywords_relabel,
      Stmt.keywordsOption_relabel elseBranch]
    rfl
  | .while condition body => by
    rw [Stmt.relabel, Stmt.keywords, condition.keywords_relabel, body.keywords_relabel]
    rfl
  | .function _ _ body => congrArg (· + 1) (Stmt.keywordsAll_relabel body)
  | .return _ value => congrArg (· + 1) (Expr.keywordsOption_relabel value)
termination_by structural s

theorem Stmt.keywordsAll_relabel (ss : List Stmt) :
    Stmt.keywordsAll (Stmt.relabelAll f g ss) = Stmt.keywordsAll ss :=
  match ss with
  | [] => rfl
  | s :: ss => by
    rw [Stmt.relabelAll, Stmt.keywordsAll, s.keywords_relabel, Stmt.keywordsAll_relabel ss]
    rfl
termination_by structural ss

theorem Stmt.keywordsOption_relabel (o : Option Stmt) :
    Stmt.keywordsOption (Stmt.relabelOption f g o) = Stmt.keywordsOption o :=
  match o with
  | none => rfl
  | some s => s.keywords_relabel
termination_by structural o

end

end Relabel

namespace Grammar

variable {fits : Nat → Prop}

theorem keywords_node (level : Level) (l r : Expr) (operator : Token) :
    (level.node l operator r).keywords = l.keywords + r.keywords := by
  cases level <;> rfl

theorem isBoundary_of_mem_operators {level : Level} {k : Kind} (h : k ∈ level.operators) :
    k.isBoundary = false := by
  cases level <;> simp only [Level.operators, List.mem_cons, List.not_mem_nil, or_false] at h <;>
    rcases h with rfl | rfl | rfl | rfl <;> rfl

theorem parameters_boundaries {ts names : List Token} (h : Parameters ts names) :
    boundaries ts = 0 := by
  induction h with
  | one hn => rw [boundaries_other _ hn rfl, boundaries_nil]
  | more hn hc _ ih => rw [boundaries_other _ hn rfl, boundaries_other _ hc rfl, ih]

theorem parameterList_boundaries {ts names : List Token} (h : ParameterList ts names) :
    boundaries ts = 0 := by
  cases h with
  | none => rfl
  | some hps => exact parameters_boundaries hps

theorem keywords_forLoop (initializer : Option Stmt) (condition increment : Option Expr)
    (body : Stmt) :
    (forLoop initializer condition increment body).keywords =
      Stmt.keywordsOption initializer + Expr.keywordsOption condition +
        Expr.keywordsOption increment + body.keywords + 1 := by
  cases initializer <;> cases condition <;> cases increment <;>
    simp only [forLoop, Stmt.keywords, Stmt.keywordsAll, Stmt.keywordsOption, Expr.keywordsOption,
      Expr.keywords, Option.getD_none, Option.getD_some] <;>
    omega

mutual

theorem expression_keywords {level : Level} {ts : List Token} {e : Expr}
    (h : Expression fits level ts e) : boundaries ts = e.keywords :=
  match h with
  | .assign _ hn heq hv => by
    rw [boundaries_other _ hn rfl, boundaries_other _ heq rfl, expression_keywords hv]
    rfl
  | .operation ho hl hr => by
    rw [boundaries_append, boundaries_other _ rfl (isBoundary_of_mem_operators ho),
      expression_keywords hl, expression_keywords hr, keywords_node]
  | @Expression.unary _ operator _ _ ho he => by
    have hop : operator.kind.isBoundary = false := by
      rcases ho with ho | ho <;> rw [ho] <;> rfl
    rw [boundaries_other _ rfl hop, expression_keywords he]
    rfl
  | .call ho hc hl has _ => by
    rw [boundaries_append, boundaries_other _ ho rfl, boundaries_append,
      boundaries_other _ hc rfl, boundaries_nil, expression_keywords hl, argumentList_keywords has]
    rfl
  | .number ht | .string ht | .true ht | .false ht | .nil ht | .read _ ht =>
    boundaries_other [] ht rfl
  | .grouping ho hc he => by
    rw [boundaries_other _ ho rfl, boundaries_append, boundaries_other _ hc rfl,
      expression_keywords he]
    rfl
  | .function hk hf => by
    rw [boundaries_keyword _ hk rfl, function_keywords hf]
    rfl
  | .tighter he => expression_keywords he
termination_by structural h

theorem argumentList_keywords {ts : List Token} {es : List Expr} (h : ArgumentList fits ts es) :
    boundaries ts = Expr.keywordsAll es :=
  match h with
  | .none => rfl
  | .some has => arguments_keywords has
termination_by structural h

theorem arguments_keywords {ts : List Token} {es : List Expr} (h : Arguments fits ts es) :
    boundaries ts = Expr.keywordsAll es :=
  match h with
  | .one he => expression_keywords he
  | .more hc he hes => by
    rw [boundaries_append, boundaries_other _ hc rfl, expression_keywords he,
      arguments_keywords hes]
    rfl
termination_by structural h

theorem function_keywords {ts params : List Token} {body : List Stmt}
    (h : Function fits ts params body) : boundaries ts = Stmt.keywordsAll body :=
  match h with
  | .mk ho hc hps _ hb => by
    rw [boundaries_other _ ho rfl, boundaries_append, boundaries_other _ hc rfl,
      parameterList_boundaries hps, block_keywords hb, Nat.zero_add]
termination_by structural h

theorem block_keywords {ts : List Token} {body : List Stmt} (h : Block fits ts body) :
    boundaries ts = Stmt.keywordsAll body :=
  match h with
  | .mk ho hc hds => by
    rw [boundaries_other _ ho rfl, boundaries_append, boundaries_other _ hc rfl,
      declarations_keywords hds]
    rfl
termination_by structural h

/-- The tree of a program has as many nodes with a boundary keyword as there are such keywords. -/
theorem declarations_keywords {ts : List Token} {ss : List Stmt} (h : Declarations fits ts ss) :
    boundaries ts = Stmt.keywordsAll ss :=
  match h with
  | .nil => rfl
  | .cons hd hs => by
    rw [boundaries_append, declaration_keywords hd, declarations_keywords hs]
    rfl
termination_by structural h

theorem declaration_keywords {ts : List Token} {s : Stmt} (h : Declaration fits ts s) :
    boundaries ts = s.keywords :=
  match h with
  | .function hk hn hf => by
    rw [boundaries_keyword _ hk rfl, boundaries_other _ hn rfl, function_keywords hf]
    rfl
  | .var hv => varDeclaration_keywords hv
  | .statement hs => statement_keywords hs
termination_by structural h

theorem varDeclaration_keywords {ts : List Token} {s : Stmt} (h : VarDeclaration fits ts s) :
    boundaries ts = s.keywords :=
  match h with
  | .unset hk hn hs => by
    rw [boundaries_keyword _ hk rfl, boundaries_other _ hn rfl, boundaries_other _ hs rfl]
    rfl
  | .set hk hn heq hs he => by
    rw [boundaries_keyword _ hk rfl, boundaries_other _ hn rfl, boundaries_other _ heq rfl,
      boundaries_append, boundaries_other _ hs rfl, expression_keywords he]
    rfl
termination_by structural h

theorem expressionStatement_keywords {ts : List Token} {s : Stmt}
    (h : ExpressionStatement fits ts s) : boundaries ts = s.keywords :=
  match h with
  | .mk hs he => by
    rw [boundaries_append, boundaries_other _ hs rfl, expression_keywords he]
    rfl
termination_by structural h

theorem clause_keywords {ts : List Token} {o : Option Expr} (h : Clause fits ts o) :
    boundaries ts = Expr.keywordsOption o :=
  match h with
  | .none => rfl
  | .some he => expression_keywords he
termination_by structural h

theorem initializer_keywords {ts : List Token} {o : Option Stmt} (h : Initializer fits ts o) :
    boundaries ts = Stmt.keywordsOption o :=
  match h with
  | .none hs => boundaries_other [] hs rfl
  | .var hv => varDeclaration_keywords hv
  | .expression he => expressionStatement_keywords he
termination_by structural h

theorem statement_keywords {dangling : Bool} {ts : List Token} {s : Stmt}
    (h : Statement fits dangling ts s) : boundaries ts = s.keywords :=
  match h with
  | .expression he => expressionStatement_keywords he
  | .print hk hs he => by
    rw [boundaries_keyword _ hk rfl, boundaries_append, boundaries_other _ hs rfl,
      expression_keywords he]
    rfl
  | .return hk hs hc => by
    rw [boundaries_keyword _ hk rfl, boundaries_append, boundaries_other _ hs rfl,
      clause_keywords hc]
    rfl
  | .block hb => block_keywords hb
  | .ifThen hk ho hc he hs => by
    rw [boundaries_keyword _ hk rfl, boundaries_other _ ho rfl, boundaries_append,
      boundaries_other _ hc rfl, expression_keywords he, statement_keywords hs]
    rfl
  | .ifElse hk ho hc helse he hs ht => by
    rw [boundaries_keyword _ hk rfl, boundaries_other _ ho rfl, boundaries_append,
      boundaries_other _ hc rfl, boundaries_append, boundaries_other _ helse rfl,
      expression_keywords he, statement_keywords hs, statement_keywords ht]
    rfl
  | .while hk ho hc he hs => by
    rw [boundaries_keyword _ hk rfl, boundaries_other _ ho rfl, boundaries_append,
      boundaries_other _ hc rfl, expression_keywords he, statement_keywords hs]
    rfl
  | .for hk ho hs hc hi hcs hes hd => by
    rw [boundaries_keyword _ hk rfl, boundaries_other _ ho rfl, boundaries_append,
      boundaries_append, boundaries_other _ hs rfl, boundaries_append, boundaries_other _ hc rfl,
      initializer_keywords hi, clause_keywords hcs, clause_keywords hes, statement_keywords hd,
      keywords_forLoop]
    omega
termination_by structural h

end

end Grammar

end LoxLang
