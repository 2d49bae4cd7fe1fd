import LoxLang.Proofs.Syntax.Grammar
import LoxLang.Proofs.Syntax.Tape

/-!
Operators stand only where the tables have them.

In a lawful tree every unary expression has an operator that the table of openings calls one, and every
binary expression has one that the table of continuings calls binary.  The operators of the grammar are
such (`Grammar.prefixes_of_or`, `Grammar.joins_of_mem_operators`).
-/

namespace LoxLang

namespace Kind

/-- The table has the kind as an operator before its operand. -/
def Prefixes (k : Kind) : Prop := openings.lookup k = some .operator

/-- The table has the kind as an operator between two operands that are both evaluated. -/
def Joins (k : Kind) : Prop := (continuings.lookup k).map Prod.snd = some .binary

instance (k : Kind) : Decidable k.Prefixes := inferInstanceAs (Decidable (_ = _))

instance (k : Kind) : Decidable k.Joins := inferInstanceAs (Decidable (_ = _))

theorem Prefixes.not_or_dash {k : Kind} : k.Prefixes → k = .not ∨ k = .dash := by
  cases k <;> decide

end Kind

mutual

def Expr.Lawful : Expr → Prop
  | .constant _ => True
  | .grouping inner => inner.Lawful
  | .unary operator operand => operator.kind.Prefixes ∧ operand.Lawful
  | .binary left operator right => operator.kind.Joins ∧ left.Lawful ∧ right.Lawful
  | .logical left _ right => left.Lawful ∧ right.Lawful
  | .read _ _ => True
  | .assign _ _ value => value.Lawful
  | .call callee _ arguments => callee.Lawful ∧ Expr.LawfulAll arguments
  | .function _ _ body => Stmt.LawfulAll body
termination_by structural e => e

def Expr.LawfulAll : List Expr → Prop
  | [] => True
  | e :: es => e.Lawful ∧ Expr.LawfulAll es
termination_by structural es => es

def Expr.LawfulOption : Option Expr → Prop
  | none => True
  | some e => e.Lawful
termination_by structural e => e

def Stmt.Lawful : Stmt → Prop
  | .expression value => value.Lawful
  | .print _ value => value.Lawful
  | .var _ initializer => Expr.LawfulOption initializer
  | .block body => Stmt.LawfulAll body
  | .ifElse condition thenBranch elseBranch =>
    condition.Lawful ∧ thenBranch.Lawful ∧ Stmt.LawfulBranch elseBranch
  | .while condition body => condition.Lawful ∧ body.Lawful
  | .function _ _ body => Stmt.LawfulAll body
  | .return _ value => Expr.LawfulOption value
termination_by structural s => s

def Stmt.LawfulAll : List Stmt → Prop
  | [] => True
  | s :: ss => s.Lawful ∧ Stmt.LawfulAll ss
termination_by structural ss => ss

def Stmt.LawfulBranch : Option Stmt → Prop
  | none => True
  | some s => s.Lawful
termination_by structural s => s

end

namespace Grammar

theorem joins_of_mem_operators (level : Level) (hor : level ≠ .logicOr) (hand : level ≠ .logicAnd) :
    ∀ k ∈ level.operators, k.Joins := by
  cases level with
  | logicOr => exact absurd rfl hor
  | logicAnd => exact absurd rfl hand
  | _ => decide

theorem prefixes_of_or {k : Kind} (h : k = .not ∨ k = .dash) : k.Prefixes := by
  rcases h with rfl | rfl
  · rfl
  · rfl

end Grammar

end LoxLang
