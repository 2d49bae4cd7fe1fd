import LoxLang.Proofs.Syntax.Relabel
import LoxLang.Syntax.Parenthesized
import LoxLang.Syntax.Source

/-!
Trees without lines and node numbers.

The bare form of a tree is what its printed text can preserve.  Both printed forms of a tree are
those of its bare form (`source_bareAll`, `parenthesized_bareAll`).  `numbers` lists the numbers
that are written in a tree.
-/

namespace LoxLang

/-- A token without its line. -/
def Token.unlined (t : Token) : Token := { t with line := 0 }

abbrev Expr.bare (e : Expr) : Expr := e.relabel Token.unlined fun _ => 0

abbrev Expr.bareAll (es : List Expr) : List Expr := Expr.relabelAll Token.unlined (fun _ => 0) es

abbrev Stmt.bare (s : Stmt) : Stmt := s.relabel Token.unlined fun _ => 0

/-- Statements with every line and every node number replaced by zero. -/
abbrev bareAll (ss : List Stmt) : List Stmt := Stmt.relabelAll Token.unlined (fun _ => 0) ss

theorem bareAll_unnumbered (ss : List Stmt) : bareAll (unnumbered ss) = bareAll ss :=
  Stmt.relabelAll_relabelAll _ _ _ _ ss

/-! ## Printing looks at no labels -/

section Print

set_option linter.unusedSectionVars false

variable {f : Token → Token} (hf : ∀ t, (f t).lexeme = t.lexeme) (g : NodeId → NodeId)

include hf

theorem lexemes_map (ts : List Token) : (ts.map f).map (·.lexeme) = ts.map (·.lexeme) := by
  simp only [List.map_map, Function.comp_def, hf]

mutual

theorem Expr.source_relabel (e : Expr) : (e.relabel f g).source = e.source := by
  cases e with
  | constant value => rfl
  | grouping inner => simp only [Expr.relabel, Expr.source, inner.source_relabel]
  | unary operator operand =>
    simp only [Expr.relabel, Expr.source, operand.source_relabel, hf]
  | binary left operator right =>
    simp only [Expr.relabel, Expr.source, left.source_relabel, right.source_relabel, hf]
  | logical left operator right =>
    simp only [Expr.relabel, Expr.source, left.source_relabel, right.source_relabel, hf]
  | read id name => exact hf name
  | assign id name value => simp only [Expr.relabel, Expr.source, value.source_relabel, hf]
  | call callee paren arguments =>
    simp only [Expr.relabel, Expr.source, callee.source_relabel, Expr.sourceAll_relabel arguments]
  | function keyword params body =>
    simp only [Expr.relabel, Expr.source, parameterSource, lexemes_map hf,
      Stmt.blockSource_relabel _ body]
termination_by structural e

theorem Expr.sourceAll_relabel (es : List Expr) :
    Expr.sourceAll (Expr.relabelAll f g es) = Expr.sourceAll es := by
  cases es with
  | nil => rfl
  | cons e es =>
    simp only [Expr.relabelAll, Expr.sourceAll, e.source_relabel, Expr.sourceAll_relabel es]
termination_by structural es

theorem Expr.sourceAfter_relabel (before : String) (o : Option Expr) :
    Expr.sourceAfter before (Expr.relabelOption f g o) = Expr.sourceAfter before o := by
  cases o with
  | none => rfl
  | some e => simp only [Expr.relabelOption, Expr.sourceAfter, e.source_relabel]
termination_by structural o

theorem Stmt.source_relabel (depth : Nat) (s : Stmt) :
    (s.relabel f g).source depth = s.source depth := by
  cases s with
  | expression value => simp only [Stmt.relabel, Stmt.source, value.source_relabel]
  | print keyword value => simp only [Stmt.relabel, Stmt.source, value.source_relabel]
  | var name initializer =>
    simp only [Stmt.relabel, Stmt.source, Expr.sourceAfter_relabel _ initializer, hf]
  | block body => simp only [Stmt.relabel, Stmt.source, Stmt.blockSource_relabel _ body]
  | ifElse condition thenBranch elseBranch =>
    simp only [Stmt.relabel, Stmt.source, condition.source_relabel, thenBranch.source_relabel,
      Stmt.sourceAfterElse_relabel _ elseBranch]
  | «while» condition body =>
    simp only [Stmt.relabel, Stmt.source, condition.source_relabel, body.source_relabel]
  | function name params body =>
    simp only [Stmt.relabel, Stmt.source, parameterSource, lexemes_map hf, hf,
      Stmt.blockSource_relabel _ body]
  | «return» keyword value =>
    simp only [Stmt.relabel, Stmt.source, Expr.sourceAfter_relabel _ value]
termination_by structural s

theorem Stmt.sourceAfterElse_relabel (depth : Nat) (o : Option Stmt) :
    Stmt.sourceAfterElse depth (Stmt.relabelOption f g o) = Stmt.sourceAfterElse depth o := by
  cases o with
  | none => rfl
  | some s => simp only [Stmt.relabelOption, Stmt.sourceAfterElse, s.source_relabel]
termination_by structural o

theorem Stmt.blockSource_relabel (depth : Nat) (ss : List Stmt) :
    Stmt.blockSource depth (Stmt.relabelAll f g ss) = Stmt.blockSource depth ss := by
  cases ss with
  | nil => rfl
  | cons s ss =>
    simp only [Stmt.relabelAll, Stmt.blockSource, s.source_relabel, Stmt.linesSource_relabel _ ss]
termination_by structural ss

theorem Stmt.linesSource_relabel (depth : Nat) (ss : List Stmt) :
    Stmt.linesSource depth (Stmt.relabelAll f g ss) = Stmt.linesSource depth ss := by
  cases ss with
  | nil => rfl
  | cons s ss =>
    simp only [Stmt.relabelAll, Stmt.linesSource, s.source_relabel, Stmt.linesSource_relabel _ ss]
termination_by structural ss

end

mutual

theorem Expr.parenthesized_relabel (e : Expr) : (e.relabel f g).parenthesized = e.parenthesized := by
  cases e with
  | constant value => rfl
  | grouping inner => simp only [Expr.relabel, Expr.parenthesized, inner.parenthesized_relabel]
  | unary operator operand =>
    simp only [Expr.relabel, Expr.parenthesized, operand.parenthesized_relabel, hf]
  | binary left operator right =>
    simp only [Expr.relabel, Expr.parenthesized, left.parenthesized_relabel,
      right.parenthesized_relabel, hf]
  | logical left operator right =>
    simp only [Expr.relabel, Expr.parenthesized, left.parenthesized_relabel,
      right.parenthesized_relabel, hf]
  | read id name => exact hf name
  | assign id name value =>
    simp only [Expr.relabel, Expr.parenthesized, value.parenthesized_relabel, hf]
  | call callee paren arguments =>
    simp only [Expr.relabel, Expr.parenthesized, callee.parenthesized_relabel,
      Expr.parenthesizedAll_relabel arguments]
  | function keyword params body =>
    simp only [Expr.relabel, Expr.parenthesized, parameterList, lexemes_map hf,
      Stmt.parenthesizedAll_relabel body]
termination_by structural e

theorem Expr.parenthesizedAll_relabel (es : List Expr) :
    Expr.parenthesizedAll (Expr.relabelAll f g es) = Expr.parenthesizedAll es := by
  cases es with
  | nil => rfl
  | cons e es =>
    simp only [Expr.relabelAll, Expr.parenthesizedAll, e.parenthesized_relabel,
      Expr.parenthesizedAll_relabel es]
termination_by structural es

theorem Expr.parenthesizedOption_relabel (o : Option Expr) :
    Expr.parenthesizedOption (Expr.relabelOption f g o) = Expr.parenthesizedOption o := by
  cases o with
  | none => rfl
  | some e => simp only [Expr.relabelOption, Expr.parenthesizedOption, e.parenthesized_relabel]
termination_by structural o

theorem Stmt.parenthesized_relabel (s : Stmt) : (s.relabel f g).parenthesized = s.parenthesized := by
  cases s with
  | expression value => simp only [Stmt.relabel, Stmt.parenthesized, value.parenthesized_relabel]
  | print keyword value =>
    simp only [Stmt.relabel, Stmt.parenthesized, value.parenthesized_relabel]
  | var name initializer =>
    simp only [Stmt.relabel, Stmt.parenthesized, Expr.parenthesizedOption_relabel initializer, hf]
  | block body => simp only [Stmt.relabel, Stmt.parenthesized, Stmt.parenthesizedAll_relabel body]
  | ifElse condition thenBranch elseBranch =>
    simp only [Stmt.relabel, Stmt.parenthesized, condition.parenthesized_relabel,
      thenBranch.parenthesized_relabel, Stmt.parenthesizedOption_relabel elseBranch]
  | «while» condition body =>
    simp only [Stmt.relabel, Stmt.parenthesized, condition.parenthesized_relabel,
      body.parenthesized_relabel]
  | function name params body =>
    simp only [Stmt.relabel, Stmt.parenthesized, parameterList, lexemes_map hf, hf,
      Stmt.parenthesizedAll_relabel body]
  | «return» keyword value =>
    simp only [Stmt.relabel, Stmt.parenthesized, Expr.parenthesizedOption_relabel value]
termination_by structural s

theorem Stmt.parenthesizedAll_relabel (ss : List Stmt) :
    Stmt.parenthesizedAll (Stmt.relabelAll f g ss) = Stmt.parenthesizedAll ss := by
  cases ss with
  | nil => rfl
  | cons s ss =>
    simp only [Stmt.relabelAll, Stmt.parenthesizedAll, s.parenthesized_relabel,
      Stmt.parenthesizedAll_relabel ss]
termination_by structural ss

theorem Stmt.parenthesizedOption_relabel (o : Option Stmt) :
    Stmt.parenthesizedOption (Stmt.relabelOption f g o) = Stmt.parenthesizedOption o := by
  cases o with
  | none => rfl
  | some s => simp only [Stmt.relabelOption, Stmt.parenthesizedOption, s.parenthesized_relabel]
termination_by structural o

end

end Print

theorem source_bareAll (ss : List Stmt) : sourceProgram (bareAll ss) = sourceProgram ss :=
  @Stmt.linesSource_relabel Token.unlined (fun _ => rfl) _ 0 ss

theorem parenthesized_bareAll (ss : List Stmt) :
    parenthesizedProgram (bareAll ss) = parenthesizedProgram ss :=
  congrArg ("\n".intercalate ·) (@Stmt.parenthesizedAll_relabel Token.unlined (fun _ => rfl) _ ss)

/-! ## Numbers -/

def Constant.numbers : Constant → List Float
  | .number x => [x]
  | _ => []

mutual

/-- The numbers that are written in an expression. -/
def Expr.numbers : Expr → List Float
  | .constant value => value.numbers
  | .grouping inner => inner.numbers
  | .unary _ operand => operand.numbers
  | .binary left _ right => left.numbers ++ right.numbers
  | .logical left _ right => left.numbers ++ right.numbers
  | .read _ _ => []
  | .assign _ _ value => value.numbers
  | .call callee _ arguments => callee.numbers ++ Expr.numbersAll arguments
  | .function _ _ body => Stmt.numbersAll body
termination_by structural e => e

def Expr.numbersAll : List Expr → List Float
  | [] => []
  | e :: es => e.numbers ++ Expr.numbersAll es
termination_by structural es => es

def Expr.numbersOption : Option Expr → List Float
  | none => []
  | some e => e.numbers
termination_by structural e => e

def Stmt.numbers : Stmt → List Float
  | .expression value => value.numbers
  | .print _ value => value.numbers
  | .var _ initializer => Expr.numbersOption initializer
  | .block body => Stmt.numbersAll body
  | .ifElse condition thenBranch elseBranch =>
    condition.numbers ++ (thenBranch.numbers ++ Stmt.numbersOption elseBranch)
  | .while condition body => condition.numbers ++ body.numbers
  | .function _ _ body => Stmt.numbersAll body
  | .return _ value => Expr.numbersOption value
termination_by structural s => s

def Stmt.numbersAll : List Stmt → List Float
  | [] => []
  | s :: ss => s.numbers ++ Stmt.numbersAll ss
termination_by structural ss => ss

def Stmt.numbersOption : Option Stmt → List Float
  | none => []
  | some s => s.numbers
termination_by structural s => s

end

end LoxLang
