import LoxLang.Proofs.Outcome
import LoxLang.Session

/-!
Lexical scoping, without frames and distances.

Here the surroundings of a piece of program are a persistent map from the local names that are
visible to their cells, and a function keeps the map that was current when it was created.  A
declaration inside a block or a function body gets a new cell; the cell is visible to the
initializer and stays unset until the initializer is done.  What is declared at top level, and every
name that is not in the map, is in one table by name.

Evaluation goes as that of programs does, bound for bound; it does not look at node numbers.
-/

namespace LoxLang

namespace Lexical

abbrev CellId := Nat

/-- Where a piece of program stands: at top level, or inside a block or a function body, with the
cells of the local names that are visible there, the latest first. -/
inductive Surroundings
  | top
  | within (names : List (String × CellId))

namespace Surroundings

/-- The cell of a local name. -/
def cell? : Surroundings → String → Option CellId
  | top, _ => none
  | within names, name => names.lookup name

/-- The surroundings at the beginning of a block or of a function body. -/
def enter : Surroundings → Surroundings
  | top => within []
  | within names => within names

end Surroundings

structure Machine where
  /-- The cells, each with its value once it is set. -/
  cells : Array (Option (Value Surroundings))
  /-- The table of what is declared at top level. -/
  globals : List (String × Value Surroundings)
  depth : Nat
  lines : Array String
  nextCallable : Nat
  nativeCalls : Nat

abbrev Run (α : Type) := Action Stop Machine α

/-- The machine at the beginning of a session. -/
def Machine.start : Machine :=
  ⟨#[], [("clock", .callable 0 (.native "clock" 0))], 0, #[], 1, 0⟩

/-! ## Variables -/

def Machine.setCell (r : Machine) (cell : CellId) (value : Value Surroundings) : Machine :=
  { r with cells := r.cells.modify cell fun _ => some value }

def Machine.setGlobal (r : Machine) (name : String) (value : Value Surroundings) : Machine :=
  { r with globals := Frame.put name value r.globals }

/-- The value of a name: of its cell if it is local, else from the table; nothing if that is unset
or the name is not in the table. -/
def Machine.value? (r : Machine) (env : Surroundings) (name : String) :
    Option (Value Surroundings) :=
  match env.cell? name with
  | some cell => (r.cells[cell]?).bind id
  | none => r.globals.lookup name

def read (env : Surroundings) (name : Token) : Run (Value Surroundings) := fun r =>
  Run.declaredOr name (r.value? env name.lexeme) r

/-- Gives a name another value.  That of an unset cell, or of a name that is not in the table, cannot
be changed. -/
def assign (env : Surroundings) (name : Token) (value : Value Surroundings) : Run Unit := fun r =>
  if (r.value? env name.lexeme).isSome then
    match env.cell? name.lexeme with
    | some cell => .ok () (r.setCell cell value)
    | none => .ok () (r.setGlobal name.lexeme value)
  else Run.fault (.notDeclared name.lexeme) name r

/-- A new cell for a name inside a block or a function body, not set yet. -/
def declare (env : Surroundings) (name : String) : Run Surroundings := fun r =>
  match env with
  | .top => .ok .top r
  | .within names =>
    .ok (.within ((name, r.cells.size) :: names)) { r with cells := r.cells.push none }

/-- Sets the cell of a name that has been declared, or puts it into the table. -/
def define (env : Surroundings) (name : String) (value : Value Surroundings) : Run Unit := fun r =>
  match env.cell? name with
  | some cell => .ok () (r.setCell cell value)
  | none => .ok () (r.setGlobal name value)

/-- The surroundings in which a statement is executed: those in which its own name, if it declares
one, has been declared. -/
def declareIn (env : Surroundings) : Stmt → Run Surroundings
  | .var name _ => declare env name.lexeme
  | .function name _ _ => declare env name.lexeme
  | _ => pure env

/-- Declares names one after the other and gives them values. -/
def bindAll (env : Surroundings) : List (String × Value Surroundings) → Run Surroundings
  | [] => pure env
  | (name, value) :: rest => do
    let inside ← declare env name
    define inside name value
    bindAll inside rest

/-! ## Functions -/

def print (line : String) : Run Unit := fun r => .ok () { r with lines := r.lines.push line }

/-- A new function that keeps its surroundings. -/
def closure (env : Surroundings) (name : Option String) (params : List Token) (body : List Stmt) :
    Run (Value Surroundings) := fun r =>
  .ok (.callable r.nextCallable (.closure name params body env))
    { r with nextCallable := r.nextCallable + 1 }

/-- Runs `x` as one more call of a program function. -/
def inCall {α : Type} (paren : Token) (x : Run α) : Run α := fun r =>
  if maxCallDepth ≤ r.depth then Run.fault (.callsTooDeep maxCallDepth) paren r
  else
    match x { r with depth := r.depth + 1 } with
    | .ok a r => .ok a { r with depth := r.depth - 1 }
    | .error e r => .error e { r with depth := r.depth - 1 }
    | .exhausted => .exhausted

theorem inCall_eq {α : Type} (paren : Token) (x : Run α) (r : Machine) :
    inCall paren x r =
      if maxCallDepth ≤ r.depth then Run.fault (.callsTooDeep maxCallDepth) paren r
      else (x { r with depth := r.depth + 1 }).mapState fun s => { s with depth := s.depth - 1 } := by
  rw [inCall]
  cases x { r with depth := r.depth + 1 } <;> rfl

/-- Reads the clock, the only function of the host.  A reading that fails is a fault of the call. -/
def readClock (reading : Nat → Except String Float) (paren : Token) : Run (Value Surroundings) :=
  fun r =>
    match reading r.nativeCalls with
    | .ok x => .ok (.number x) { r with nativeCalls := r.nativeCalls + 1 }
    | .error message =>
      Run.fault (.nativeFailure message) paren { r with nativeCalls := r.nativeCalls + 1 }

/-! ## Evaluation -/

variable (reading : Nat → Except String Float)

mutual

def evaluate : Nat → Surroundings → Expr → Run (Value Surroundings)
  | 0, _, _ => Action.outOfSteps
  | n + 1, env, e =>
    match e with
    | .constant value => pure (.ofConstant value)
    | .grouping inner => evaluate n env inner
    | .unary operator operand => do
      let v ← evaluate n env operand
      Run.applyUnary operator v
    | .binary left operator right => do
      let a ← evaluate n env left
      let b ← evaluate n env right
      Run.applyBinary operator a b
    | .logical left operator right => do
      let a ← evaluate n env left
      if Run.decides operator a then pure a else evaluate n env right
    | .read _ name => read env name
    | .assign _ name value => do
      let v ← evaluate n env value
      assign env name v
      pure v
    | .call callee paren arguments => do
      let f ← evaluate n env callee
      let values ← evaluateAll n env arguments
      match f with
      | .callable _ function =>
        if values.length = function.arity then call n function paren values
        else Run.fault (.wrongArgumentCount function.arity values.length) paren
      | _ => Run.fault .notCallable paren
    | .function _ params body => closure env none params body

def evaluateAll : Nat → Surroundings → List Expr → Run (List (Value Surroundings))
  | 0, _, _ => Action.outOfSteps
  | n + 1, env, es =>
    match es with
    | [] => pure []
    | e :: rest => do
      let v ← evaluate n env e
      let vs ← evaluateAll n env rest
      pure (v :: vs)

/-- Calls a function.  Its parameters are declared in the surroundings that it kept. -/
def call : Nat → Callable Surroundings → Token → List (Value Surroundings) →
    Run (Value Surroundings)
  | 0, _, _, _ => Action.outOfSteps
  | n + 1, function, paren, values =>
    match function with
    | .native _ _ => readClock reading paren
    | .closure _ params body kept => do
      let env ← bindAll kept.enter ((params.map (·.lexeme)).zip values)
      match ← inCall paren (executeAll n env body) with
      | .returned v => pure v
      | .normal => pure .nil

/-- Executes a statement.  If it is a declaration, its name has been declared. -/
def execute : Nat → Surroundings → Stmt → Run (Completion Surroundings)
  | 0, _, _ => Action.outOfSteps
  | n + 1, env, s =>
    match s with
    | .expression value => do
      let _ ← evaluate n env value
      pure .normal
    | .print _ value => do
      let v ← evaluate n env value
      print v.display
      pure .normal
    | .var name initializer => do
      let v ← match initializer with
        | none => pure .nil
        | some value => evaluate n env value
      define env name.lexeme v
      pure .normal
    | .block body => executeAll n env.enter body
    | .ifElse condition thenBranch elseBranch => do
      let v ← evaluate n env condition
      if v.isTruthy then execute n env thenBranch
      else
        match elseBranch with
        | none => pure .normal
        | some branch => execute n env branch
    | .while condition body => loop n env condition body
    | .function name params body => do
      let f ← closure env (some name.lexeme) params body
      define env name.lexeme f
      pure .normal
    | .return _ value =>
      match value with
      | none => pure (.returned .nil)
      | some value => do
        let v ← evaluate n env value
        pure (.returned v)

/-- Executes statements in order, each in the surroundings that the ones before have left. -/
def executeAll : Nat → Surroundings → List Stmt → Run (Completion Surroundings)
  | 0, _, _ => Action.outOfSteps
  | n + 1, env, ss =>
    match ss with
    | [] => pure .normal
    | s :: rest => do
      let inside ← declareIn env s
      match ← execute n inside s with
      | .normal => executeAll n inside rest
      | .returned v => pure (.returned v)

def loop : Nat → Surroundings → Expr → Stmt → Run (Completion Surroundings)
  | 0, _, _, _ => Action.outOfSteps
  | n + 1, env, condition, body => do
    let v ← evaluate n env condition
    if v.isTruthy then
      match ← execute n env body with
      | .normal => loop n env condition body
      | .returned v => pure (.returned v)
    else pure .normal

end

def executeProgram (n : Nat) : List Stmt → Run Unit
  | [] => pure ()
  | s :: rest => do
    let _ ← execute reading n .top s
    executeProgram n rest

/-! ## Sessions -/

/-- What shows of a run: how it ended, what was wrong, and what the program printed. -/
structure Ending where
  status : Status
  faults : List Diagnostic
  lines : List String

/-- What is left after a run, for the next one. -/
structure Session where
  machine : Machine
  nextId : NodeId

namespace Session

def start : Session := ⟨.start, 0⟩

/-- Runs a program text, unless the analysis rejects it. -/
def run (bound : Nat) (session : Session) (source : String) : Option (Ending × Session) :=
  let analysis := LoxLang.Session.analyse source session.nextId
  let nextId := analysis.program.nextId
  if !analysis.faults.isEmpty then
    some (⟨.staticError, analysis.faults, []⟩, ⟨session.machine, nextId⟩)
  else
    match executeProgram reading bound analysis.program.statements session.machine with
    | .ok () r => some (⟨.completed, [], r.lines.toList⟩, ⟨{ r with lines := #[] }, nextId⟩)
    | .error (.fault d) r =>
      some (⟨.runtimeError, [d], r.lines.toList⟩, ⟨{ r with lines := #[] }, nextId⟩)
    | .error (.malformed _) _ => none
    | .exhausted => none

/-- What shows of runs one after the other, up to the first that does not end within its bound. -/
def endings (session : Session) : List (Nat × String) → List (Option Ending)
  | [] => []
  | (bound, source) :: rest =>
    match session.run reading bound source with
    | none => [none]
    | some (ending, after) => some ending :: after.endings rest

end Session

end Lexical

/-- What shows of a run. -/
def Session.Report.ending (r : Session.Report) : Lexical.Ending := ⟨r.status, r.faults, r.lines⟩

/-- What shows of runs one after the other, up to the first that does not end within its bound. -/
def Session.endings (host : Host) (session : Session) :
    List (Nat × Listings × String) → List (Option Lexical.Ending)
  | [] => []
  | (bound, listed, source) :: rest =>
    match session.run host bound listed source with
    | none => [none]
    | some report => some report.ending :: report.session.endings host rest

end LoxLang
