import LoxLang.Diagnostic
import LoxLang.Scope
import LoxLang.Syntax
import Std.Data.TreeMap

/-!
Resolution of names: which declaration each variable read or assignment refers to.

A block and a function open a scope each; at top level there is none.  A reference is at a distance:
the number of scopes between it and the nearest one that declares its name.  A name that no scope
declares is global.  The walk goes through the program from left to right and notes a finding for
each reference and for each fault: a name declared twice in a scope, a variable read in its own
initializer, a `return` outside all functions.
-/

namespace LoxLang

/-- A variable read or an assignment. -/
structure Reference where
  id : NodeId
  name : Token
  isAssignment : Bool

inductive Finding
  /-- A reference and its distance; none for a global name. -/
  | reference (use : Reference) (distance : Option Nat)
  | fault (error : TokenError)

/-- The scopes around a place, the innermost first. -/
abbrev Scopes := List Scope

namespace Scopes

/-- How many scopes lie between a place and the nearest one that declares the name. -/
def distance? (scopes : Scopes) (name : String) : Option Nat :=
  scopes.findIdx? fun s => s.declares name

/-- Changes the innermost scope, if there is one. -/
def inner (f : Scope → Scope) : Scopes → Scopes
  | [] => []
  | s :: rest => f s :: rest

def declare (scopes : Scopes) (name : Token) : Scopes := inner (·.declare name.lexeme) scopes

def define (scopes : Scopes) (name : Token) : Scopes := inner (·.define name.lexeme) scopes

/-- The fault of declaring a name that the innermost scope declares already. -/
def declarationFaults (scopes : Scopes) (name : Token) : List Finding :=
  match scopes with
  | s :: _ => if s.declares name.lexeme then [.fault ⟨name, .alreadyDeclared name.lexeme⟩] else []
  | [] => []

/-- The fault of reading a name whose initializer in the innermost scope is not done. -/
def readFaults (scopes : Scopes) (name : Token) : List Finding :=
  match scopes with
  | s :: _ =>
    if s.ready? name.lexeme = some false then [.fault ⟨name, .readInOwnInitializer name.lexeme⟩]
    else []
  | [] => []

/-- Declares parameters one after the other, each ready at once. -/
def parameters (scopes : Scopes) : List Token → List Finding × Scopes
  | [] => ([], scopes)
  | name :: names =>
    let (findings, after) := parameters ((scopes.declare name).define name) names
    (scopes.declarationFaults name ++ findings, after)

end Scopes

mutual

/-- The findings in an expression; it leaves the scopes around it as they are. -/
def Expr.findings (scopes : Scopes) : Expr → List Finding
  | .constant _ => []
  | .grouping inner => inner.findings scopes
  | .unary _ operand => operand.findings scopes
  | .binary left _ right => left.findings scopes ++ right.findings scopes
  | .logical left _ right => left.findings scopes ++ right.findings scopes
  | .read id name =>
    scopes.readFaults name ++ [.reference ⟨id, name, false⟩ (scopes.distance? name.lexeme)]
  | .assign id name value =>
    value.findings scopes ++ [.reference ⟨id, name, true⟩ (scopes.distance? name.lexeme)]
  | .call callee _ arguments => callee.findings scopes ++ Expr.findingsAll scopes arguments
  | .function _ params body =>
    let (findings, inside) := Scopes.parameters ({} :: scopes) params
    findings ++ (Stmt.findingsAll true inside body).1
termination_by structural e => e

def Expr.findingsAll (scopes : Scopes) : List Expr → List Finding
  | [] => []
  | e :: es => e.findings scopes ++ Expr.findingsAll scopes es
termination_by structural es => es

def Expr.findingsOption (scopes : Scopes) : Option Expr → List Finding
  | none => []
  | some e => e.findings scopes
termination_by structural e => e

/-- The findings in a statement, and the scopes behind it. -/
def Stmt.findings (inFunction : Bool) (scopes : Scopes) : Stmt → List Finding × Scopes
  | .expression value => (value.findings scopes, scopes)
  | .print _ value => (value.findings scopes, scopes)
  | .var name initializer =>
    let declared := scopes.declare name
    (scopes.declarationFaults name ++ Expr.findingsOption declared initializer,
      declared.define name)
  | .block body => ((Stmt.findingsAll inFunction ({} :: scopes) body).1, scopes)
  | .ifElse condition thenBranch elseBranch =>
    let (inThen, afterThen) := thenBranch.findings inFunction scopes
    let (inElse, afterElse) := Stmt.findingsOption inFunction afterThen elseBranch
    (condition.findings scopes ++ (inThen ++ inElse), afterElse)
  | .while condition body =>
    let (inBody, after) := body.findings inFunction scopes
    (condition.findings scopes ++ inBody, after)
  | .function name params body =>
    let declared := (scopes.declare name).define name
    let (findings, inside) := Scopes.parameters ({} :: declared) params
    (scopes.declarationFaults name ++ (findings ++ (Stmt.findingsAll true inside body).1), declared)
  | .return keyword value =>
    let faults := if inFunction then [] else [.fault ⟨keyword, .returnAtTopLevel⟩]
    (faults ++ Expr.findingsOption scopes value, scopes)
termination_by structural s => s

def Stmt.findingsAll (inFunction : Bool) (scopes : Scopes) : List Stmt → List Finding × Scopes
  | [] => ([], scopes)
  | s :: ss =>
    let (here, between) := s.findings inFunction scopes
    let (there, after) := Stmt.findingsAll inFunction between ss
    (here ++ there, after)
termination_by structural ss => ss

def Stmt.findingsOption (inFunction : Bool) (scopes : Scopes) : Option Stmt → List Finding × Scopes
  | none => ([], scopes)
  | some s => s.findings inFunction scopes
termination_by structural s => s

end

/-- The findings in a program, from left to right. -/
def findingsIn (program : List Stmt) : List Finding := (Stmt.findingsAll false [] program).1

def Finding.fault? : Finding → Option TokenError
  | .fault e => some e
  | .reference _ _ => none

/-- The node and the distance of a reference that is not global. -/
def Finding.local? : Finding → Option (NodeId × Nat)
  | .reference use (some distance) => some (use.id, distance)
  | _ => none

def resolutionFaults (findings : List Finding) : List TokenError := findings.filterMap (·.fault?)

/-! ## The table of distances -/

/-- The distances of the references that are not global. -/
abbrev Locals := Std.TreeMap NodeId Nat

/-- The table with the distances found in a program added. -/
def Locals.extend (table : Locals) (findings : List Finding) : Locals :=
  (findings.filterMap (·.local?)).foldl (fun t entry => t.insert entry.1 entry.2) table

end LoxLang
