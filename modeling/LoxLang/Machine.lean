import LoxLang.Frame
import LoxLang.Host
import LoxLang.Outcome
import LoxLang.Scope.Resolution

/-!
The state of a run, and the single steps on it.

A machine holds the frames, which of them is active, how many calls of program functions are being
executed, and what has been printed.  Entering a frame or a call is undone on every way out, a
fault included: `Run.inFrame` and `Run.inCall` put back the active frame and the depth of calls.
-/

namespace LoxLang

structure Machine (ε : Type := FrameId) where
  store : Store ε
  /-- The frame in which statements are executed. -/
  active : FrameId
  /-- How many calls of program functions are being executed. -/
  depth : Nat
  /-- The printed lines. -/
  lines : Array String
  /-- The number that the next new callable gets. -/
  nextCallable : Nat
  /-- How many calls of native functions there have been. -/
  nativeCalls : Nat

/-- What stays the same during a run: the host and the distances of the local references. -/
structure Context where
  host : Host
  locals : Locals

/-- Why a run stops before its end. -/
inductive Stop
  /-- The program has done something wrong. -/
  | fault (diagnostic : Diagnostic)
  /-- The tree has an operator that no program text gives rise to. -/
  | malformed (operator : Token)

/-- How a statement ends. -/
inductive Completion (ε : Type := FrameId)
  | normal
  /-- A `return` is on its way to the call that it ends. -/
  | returned (value : Value ε)

/-- Computations on machines whose functions keep an `ε`. -/
abbrev RunOver (ε : Type) (α : Type) := Action Stop (Machine ε) α

abbrev Run (α : Type) := RunOver FrameId α

/-- The most calls of program functions that may be executed at a time. -/
def maxCallDepth : Nat := 1000

variable {ε α : Type}

namespace Machine

/-- A machine with an empty global frame. -/
def bare : Machine ε := ⟨.initial, Store.globalFrame, 0, #[], 0, 0⟩

/-- Binds a name in the active frame. -/
def define (m : Machine ε) (name : String) (value : Value ε) : Machine ε :=
  { m with store := m.store.define m.active name value }

/-- Binds a name in the global frame. -/
def defineGlobal (m : Machine ε) (name : String) (value : Value ε) : Machine ε :=
  { m with store := m.store.define Store.globalFrame name value }

/-- Binds a native function in the global frame. -/
def register (m : Machine ε) (name : String) (arity : Nat) : Machine ε :=
  let value := Value.callable m.nextCallable (.native name arity)
  { m.defineGlobal name value with nextCallable := m.nextCallable + 1 }

/-- The machine at the beginning of a session: the native functions are bound, nothing else. -/
def start (host : Host) : Machine ε :=
  host.natives.foldl (fun m native => m.register native.1 native.2) bare

def atGlobals (m : Machine ε) : Bool := m.active = Store.globalFrame

end Machine

namespace Run

def fault {σ : Type} (cause : Cause) (token : Token) : Action Stop σ α :=
  Action.fail (.fault (.atToken cause token))

/-- The value that is there, or the fault that the name is not declared. -/
def declaredOr {σ : Type} (name : Token) : Option α → Action Stop σ α
  | some a => pure a
  | none => fault (.notDeclared name.lexeme) name

def print (line : String) : RunOver ε Unit := fun m =>
  .ok () { m with lines := m.lines.push line }

/-- Binds a name in the active frame. -/
def define (name : String) (value : Value ε) : RunOver ε Unit := fun m =>
  .ok () (m.define name value)

/-- A new function of the program, created in the active frame. -/
def closure (name : Option String) (params : List Token) (body : List Stmt) : Run Value := fun m =>
  .ok (.callable m.nextCallable (.closure name params body m.active))
    { m with nextCallable := m.nextCallable + 1 }

/-- A new frame enclosed by `f`, with the given bindings. -/
def newFrame (f : FrameId) (bindings : List (String × Value ε)) : RunOver ε FrameId := fun m =>
  .ok m.store.nextFrame { m with store := m.store.push f bindings }

/-- A new frame without bindings, enclosed by the active one. -/
def newInnerFrame : RunOver ε FrameId := fun m => newFrame m.active [] m

/-! ## Variables -/

/-- The value of a variable: at its distance if it is local, by its name if it is global. -/
def readVariable (context : Context) (id : NodeId) (name : Token) : RunOver ε (Value ε) := fun m =>
  match context.locals[id]? with
  | some distance => declaredOr name (m.store.getAt? m.active distance name.lexeme) m
  | none => declaredOr name (m.store.get? Store.globalFrame name.lexeme) m

/-- The frame that holds a variable: at its distance if it is local, by its name if it is global. -/
def owner? (context : Context) (m : Machine ε) (id : NodeId) (name : String) : Option FrameId :=
  match context.locals[id]? with
  | some distance => m.store.ownerAt? m.active distance name
  | none => m.store.owner? Store.globalFrame name

/-- Gives a variable another value. -/
def assignVariable (context : Context) (id : NodeId) (name : Token) (value : Value ε) : RunOver ε Unit :=
  fun m =>
    match owner? context m id name.lexeme with
    | some f => .ok () { m with store := m.store.define f name.lexeme value }
    | none => fault (.notDeclared name.lexeme) name m

/-! ## Frames and calls -/

/-- Runs `x` with `f` as the active frame, and puts the active frame back on every way out. -/
@[always_inline, inline]
def inFrame (f : FrameId) (x : RunOver ε α) : RunOver ε α := fun m =>
  let before := m.active
  match x { m with active := f } with
  | .ok a m => .ok a { m with active := before }
  | .error e m => .error e { m with active := before }
  | .exhausted => .exhausted

/-- Runs `x` as one more call of a program function.  It fails at `paren` when as many calls as
allowed are being executed already. -/
@[always_inline, inline]
def inCall (paren : Token) (x : RunOver ε α) : RunOver ε α := fun m =>
  if maxCallDepth ≤ m.depth then fault (.callsTooDeep maxCallDepth) paren m
  else
    match x { m with depth := m.depth + 1 } with
    | .ok a m => .ok a { m with depth := m.depth - 1 }
    | .error e m => .error e { m with depth := m.depth - 1 }
    | .exhausted => .exhausted

/-- Calls a native function; what goes wrong in it is a fault at `paren`. -/
def callNative (context : Context) (name : String) (paren : Token) (values : List Value) :
    Run Value := fun m =>
  match context.host.answer name m.nativeCalls values with
  | .ok value => .ok value { m with nativeCalls := m.nativeCalls + 1 }
  | .error cause => fault cause paren { m with nativeCalls := m.nativeCalls + 1 }

end Run

end LoxLang
