import LoxLang.Scope.Resolution

/-!
Places in programs.

A node is an expression, a statement or a whole program.  A place names one node: the number of the
program and the way to the node, the last step first, so that a step further down is a `cons` and the
places above are the tails.  Blocks and functions open a scope; those above a place are the blocks and
functions that enclose it (`Place.enclosing`).
-/

namespace LoxLang

inductive Node
  | program (statements : List Stmt)
  | statement (statement : Stmt)
  | expression (expression : Expr)

namespace Node

/-- The nodes directly below a node, from left to right. -/
def children : Node → List Node
  | program ss => ss.map statement
  | expression (.constant _) => []
  | expression (.grouping inner) => [expression inner]
  | expression (.unary _ operand) => [expression operand]
  | expression (.binary left _ right) => [expression left, expression right]
  | expression (.logical left _ right) => [expression left, expression right]
  | expression (.read _ _) => []
  | expression (.assign _ _ value) => [expression value]
  | expression (.call callee _ arguments) => expression callee :: arguments.map expression
  | expression (.function _ _ body) => body.map statement
  | statement (.expression value) => [expression value]
  | statement (.print _ value) => [expression value]
  | statement (.var _ initializer) => initializer.toList.map expression
  | statement (.block body) => body.map statement
  | statement (.ifElse condition thenBranch elseBranch) =>
    expression condition :: statement thenBranch :: elseBranch.toList.map statement
  | statement (.while condition body) => [expression condition, statement body]
  | statement (.function _ _ body) => body.map statement
  | statement (.return _ value) => value.toList.map expression

/-- Blocks and functions open a scope for the nodes below them. -/
def opensScope : Node → Bool
  | expression (.function _ _ _) => true
  | statement (.block _) => true
  | statement (.function _ _ _) => true
  | _ => false

/-- The parameters and the body of a function. -/
def function? : Node → Option (List Token × List Stmt)
  | .expression (.function _ params body) => some (params, body)
  | .statement (.function _ params body) => some (params, body)
  | _ => none

theorem opensScope_of_function {node : Node} {function : List Token × List Stmt}
    (h : node.function? = some function) :
    node.opensScope = true ∧ node.children = function.2.map .statement := by
  unfold function? at h
  split at h
  · cases h
    exact ⟨rfl, rfl⟩
  · cases h
    exact ⟨rfl, rfl⟩
  · cases h

/-- A read or an assignment. -/
def reference? : Node → Option Reference
  | .expression (.read id name) => some ⟨id, name, false⟩
  | .expression (.assign id name _) => some ⟨id, name, true⟩
  | _ => none

/-- The node at the end of a way down from `root`; the way is given with the last step first. -/
def at? (root : Node) : List Nat → Option Node
  | [] => some root
  | i :: path => (root.at? path).bind fun n => n.children[i]?

end Node

/-- A place in one of several programs. -/
structure Place where
  program : Nat
  path : List Nat
  deriving DecidableEq

namespace Place

/-- The place of the child with number `i`. -/
def below (p : Place) (i : Nat) : Place := ⟨p.program, i :: p.path⟩

/-- The ways to the nodes above, the nearest first. -/
def pathsAbove : List Nat → List (List Nat)
  | [] => []
  | _ :: path => path :: pathsAbove path

/-- The places above, the nearest first; the last one is that of the whole program. -/
def above (p : Place) : List Place := (pathsAbove p.path).map (Place.mk p.program)

variable (programs : List (List Stmt))

/-- The node at a place. -/
def node? (p : Place) : Option Node :=
  (programs[p.program]?).bind fun ss => (Node.program ss).at? p.path

def opensScope (p : Place) : Bool := (p.node? programs).any (·.opensScope)

/-- The blocks and functions that enclose a place, the innermost first. -/
def enclosing (p : Place) : List Place := p.above.filter fun q => q.opensScope programs

variable {programs} {p : Place} {n : Node}

theorem node?_below (h : p.node? programs = some n) (i : Nat) :
    (p.below i).node? programs = n.children[i]? := by
  unfold node? at h ⊢
  show (programs[p.program]?).bind (fun ss => (Node.program ss).at? (i :: p.path)) = _
  cases hp : programs[p.program]? with
  | none =>
    rw [hp] at h
    cases h
  | some ss =>
    rw [hp] at h
    show ((Node.program ss).at? p.path).bind (fun n => n.children[i]?) = _
    rw [show (Node.program ss).at? p.path = some n from h]
    rfl

/-- The first of the children that are left. -/
theorem node?_below_of_drop (hn : p.node? programs = some n) {i : Nat} {c : Node} {rest : List Node}
    (hc : n.children.drop i = c :: rest) :
    (p.below i).node? programs = some c ∧ n.children.drop (i + 1) = rest := by
  constructor
  · rw [node?_below hn, ← Nat.add_zero i, ← List.getElem?_drop, hc]
    rfl
  · rw [← List.tail_drop, hc]
    rfl

theorem above_below (p : Place) (i : Nat) : (p.below i).above = p :: p.above := rfl

/-- Around the children of a block or a function there is one more scope. -/
theorem enclosing_below_of_opens (h : p.node? programs = some n) (ho : n.opensScope = true)
    (i : Nat) : (p.below i).enclosing programs = p :: p.enclosing programs := by
  have hp : p.opensScope programs = true := by
    rw [opensScope, h]
    exact ho
  rw [enclosing, above_below, List.filter_cons_of_pos hp]
  rfl

theorem enclosing_below (h : p.node? programs = some n) (ho : n.opensScope = false) (i : Nat) :
    (p.below i).enclosing programs = p.enclosing programs := by
  have hp : ¬ p.opensScope programs = true := by
    rw [opensScope, h]
    exact ne_true_of_eq_false ho
  rw [enclosing, above_below, List.filter_cons_of_neg hp]
  rfl

/-! ## Further programs -/

theorem node?_append (h : p.node? programs = some n) (more : List (List Stmt)) :
    p.node? (programs ++ more) = some n := by
  unfold node? at h ⊢
  cases hp : programs[p.program]? with
  | none =>
    rw [hp] at h
    cases h
  | some ss =>
    rw [List.getElem?_append_left (List.getElem?_eq_some_iff.1 hp).1, hp]
    rwa [hp] at h

theorem node?_append_eq (h : p.program < programs.length) (more : List (List Stmt)) :
    p.node? (programs ++ more) = p.node? programs := by
  rw [node?, List.getElem?_append_left h, node?]

theorem program_lt (h : p.node? programs = some n) : p.program < programs.length := by
  unfold node? at h
  cases hp : programs[p.program]? with
  | none =>
    rw [hp] at h
    cases h
  | some ss => exact (List.getElem?_eq_some_iff.1 hp).1

theorem enclosing_append (h : p.program < programs.length) (more : List (List Stmt)) :
    p.enclosing (programs ++ more) = p.enclosing programs := by
  refine List.filter_congr fun q hq => ?_
  obtain ⟨path, -, rfl⟩ := List.mem_map.1 hq
  have hq : (⟨p.program, path⟩ : Place).node? (programs ++ more) =
      (⟨p.program, path⟩ : Place).node? programs :=
    node?_append_eq (p := ⟨p.program, path⟩) h more
  rw [opensScope, hq, opensScope]

end Place

end LoxLang
