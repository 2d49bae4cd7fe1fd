import LoxLang.Syntax

/-!
Trees up to their labels.

`relabel f g` changes every token of a tree by `f` and every node number by `g`, and leaves the rest
as it is.  `unnumbered` trees are compared without their node numbers, `bare` ones without node
numbers and lines.  `ids` lists the node numbers of a tree.
-/

namespace LoxLang

mutual

def Expr.relabel (f : Token → Token) (g : NodeId → NodeId) : Expr → Expr
  | .constant value => .constant value
  | .grouping inner => .grouping (inner.relabel f g)
  | .unary operator operand => .unary (f operator) (operand.relabel f g)
  | .binary left operator right => .binary (left.relabel f g) (f operator) (right.relabel f g)
  | .logical left operator right => .logical (left.relabel f g) (f operator) (right.relabel f g)
  | .read id name => .read (g id) (f name)
  | .assign id name value => .assign (g id) (f name) (value.relabel f g)
  | .call callee paren arguments =>
    .call (callee.relabel f g) (f paren) (Expr.relabelAll f g arguments)
  | .function keyword params body =>
    .function (f keyword) (params.map f) (Stmt.relabelAll f g body)
termination_by structural e => e

def Expr.relabelAll (f : Token → Token) (g : NodeId → NodeId) : List Expr → List Expr
  | [] => []
  | e :: es => e.relabel f g :: Expr.relabelAll f g es
termination_by structural es => es

def Expr.relabelOption (f : Token → Token) (g : NodeId → NodeId) : Option Expr → Option Expr
  | none => none
  | some e => some (e.relabel f g)
termination_by structural e => e

def Stmt.relabel (f : Token → Token) (g : NodeId → NodeId) : Stmt → Stmt
  | .expression value => .expression (value.relabel f g)
  | .print keyword value => .print (f keyword) (value.relabel f g)
  | .var name initializer => .var (f name) (Expr.relabelOption f g initializer)
  | .block body => .block (Stmt.relabelAll f g body)
  | .ifElse condition thenBranch elseBranch =>
    .ifElse (condition.relabel f g) (thenBranch.relabel f g) (Stmt.relabelOption f g elseBranch)
  | .while condition body => .while (condition.relabel f g) (body.relabel f g)
  | .function name params body => .function (f name) (params.map f) (Stmt.relabelAll f g body)
  | .return keyword value => .return (f keyword) (Expr.relabelOption f g value)
termination_by structural s => s

def Stmt.relabelAll (f : Token → Token) (g : NodeId → NodeId) : List Stmt → List Stmt
  | [] => []
  | s :: ss => s.relabel f g :: Stmt.relabelAll f g ss
termination_by structural ss => ss

def Stmt.relabelOption (f : Token → Token) (g : NodeId → NodeId) : Option Stmt → Option Stmt
  | none => none
  | some s => some (s.relabel f g)
termination_by structural s => s

end

/-- An expression with every node number replaced by zero. -/
abbrev Expr.unnumbered (e : Expr) : Expr := e.relabel id fun _ => 0

abbrev Expr.unnumberedAll (es : List Expr) : List Expr := Expr.relabelAll id (fun _ => 0) es

abbrev Expr.unnumberedOption (o : Option Expr) : Option Expr := Expr.relabelOption id (fun _ => 0) o

abbrev Stmt.unnumbered (s : Stmt) : Stmt := s.relabel id fun _ => 0

abbrev Stmt.unnumberedOption (o : Option Stmt) : Option Stmt := Stmt.relabelOption id (fun _ => 0) o

/-- Statements with every node number replaced by zero. -/
abbrev unnumbered (ss : List Stmt) : List Stmt := Stmt.relabelAll id (fun _ => 0) ss

/-! ## Node numbers -/

mutual

/-- The node numbers of an expression, that of an assignment behind those of its value. -/
def Expr.ids : Expr → List NodeId
  | .constant _ => []
  | .grouping inner => inner.ids
  | .unary _ operand => operand.ids
  | .binary left _ right => left.ids ++ right.ids
  | .logical left _ right => left.ids ++ right.ids
  | .read id _ => [id]
  | .assign id _ value => value.ids ++ [id]
  | .call callee _ arguments => callee.ids ++ Expr.idsAll arguments
  | .function _ _ body => Stmt.idsAll body
termination_by structural e => e

def Expr.idsAll : List Expr → List NodeId
  | [] => []
  | e :: es => e.ids ++ Expr.idsAll es
termination_by structural es => es

def Expr.idsOption : Option Expr → List NodeId
  | none => []
  | some e => e.ids
termination_by structural e => e

def Stmt.ids : Stmt → List NodeId
  | .expression value => value.ids
  | .print _ value => value.ids
  | .var _ initializer => Expr.idsOption initializer
  | .block body => Stmt.idsAll body
  | .ifElse condition thenBranch elseBranch =>
    condition.ids ++ (thenBranch.ids ++ Stmt.idsOption elseBranch)
  | .while condition body => condition.ids ++ body.ids
  | .function _ _ body => Stmt.idsAll body
  | .return _ value => Expr.idsOption value
termination_by structural s => s

def Stmt.idsAll : List Stmt → List NodeId
  | [] => []
  | s :: ss => s.ids ++ Stmt.idsAll ss
termination_by structural ss => ss

def Stmt.idsOption : Option Stmt → List NodeId
  | none => []
  | some s => s.ids
termination_by structural s => s

end

/-! ## Labels one after the other -/

section Relabel

variable (f f' : Token → Token) (g g' : NodeId → NodeId)

mutual

theorem Expr.relabel_relabel (e : Expr) :
    (e.relabel f g).relabel f' g' = e.relabel (f' ∘ f) (g' ∘ g) := by
  cases e with
  | constant value => rfl
  | grouping inner => simp only [Expr.relabel, inner.relabel_relabel]
  | unary operator operand => simp only [Expr.relabel, operand.relabel_relabel, Function.comp]
  | binary left operator right =>
    simp only [Expr.relabel, left.relabel_relabel, right.relabel_relabel, Function.comp]
  | logical left operator right =>
    simp only [Expr.relabel, left.relabel_relabel, right.relabel_relabel, Function.comp]
  | read id name => rfl
  | assign id name value => simp only [Expr.relabel, value.relabel_relabel, Function.comp]
  | call callee paren arguments =>
    simp only [Expr.relabel, callee.relabel_relabel, Expr.relabelAll_relabelAll arguments,
      Function.comp]
  | function keyword params body =>
    simp only [Expr.relabel, Stmt.relabelAll_relabelAll body, List.map_map, Function.comp]
termination_by structural e

theorem Expr.relabelAll_relabelAll (es : List Expr) :
    Expr.relabelAll f' g' (Expr.relabelAll f g es) = Expr.relabelAll (f' ∘ f) (g' ∘ g) es := by
  cases es with
  | nil => rfl
  | cons e es => simp only [Expr.relabelAll, e.relabel_relabel, Expr.relabelAll_relabelAll es]
termination_by structural es

theorem Expr.relabelOption_relabelOption (o : Option Expr) :
    Expr.relabelOption f' g' (Expr.relabelOption f g o) =
      Expr.relabelOption (f' ∘ f) (g' ∘ g) o := by
  cases o with
  | none => rfl
  | some e => simp only [Expr.relabelOption, e.relabel_relabel]
termination_by structural o

theorem Stmt.relabel_relabel (s : Stmt) :
    (s.relabel f g).relabel f' g' = s.relabel (f' ∘ f) (g' ∘ g) := by
  cases s with
  | expression value => simp only [Stmt.relabel, value.relabel_relabel]
  | print keyword value => simp only [Stmt.relabel, value.relabel_relabel, Function.comp]
  | var name initializer =>
    simp only [Stmt.relabel, Expr.relabelOption_relabelOption initializer, Function.comp]
  | block body => simp only [Stmt.relabel, Stmt.relabelAll_relabelAll body]
  | ifElse condition thenBranch elseBranch =>
    simp only [Stmt.relabel, condition.relabel_relabel, thenBranch.relabel_relabel,
      Stmt.relabelOption_relabelOption elseBranch]
  | «while» condition body =>
    simp only [Stmt.relabel, condition.relabel_relabel, body.relabel_relabel]
  | function name params body =>
    simp only [Stmt.relabel, Stmt.relabelAll_relabelAll body, List.map_map, Function.comp]
  | «return» keyword value =>
    simp only [Stmt.relabel, Expr.relabelOption_relabelOption value, Function.comp]
termination_by structural s

theorem Stmt.relabelAll_relabelAll (ss : List Stmt) :
    Stmt.relabelAll f' g' (Stmt.relabelAll f g ss) = Stmt.relabelAll (f' ∘ f) (g' ∘ g) ss := by
  cases ss with
  | nil => rfl
  | cons s ss => simp only [Stmt.relabelAll, s.relabel_relabel, Stmt.relabelAll_relabelAll ss]
termination_by structural ss

theorem Stmt.relabelOption_relabelOption (o : Option Stmt) :
    Stmt.relabelOption f' g' (Stmt.relabelOption f g o) =
      Stmt.relabelOption (f' ∘ f) (g' ∘ g) o := by
  cases o with
  | none => rfl
  | some s => simp only [Stmt.relabelOption, s.relabel_relabel]
termination_by structural o

end

end Relabel

end LoxLang
