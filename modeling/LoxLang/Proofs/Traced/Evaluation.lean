import LoxLang.Proofs.Outcome
import LoxLang.Proofs.Syntax.Place
import LoxLang.Session

/-!
Runs that tell where they are.

Evaluation goes as that of programs does, bound for bound, on machines that know more: a function
keeps its own place beside its frame, and of every frame but the global one it is known for which
block or function it was made.  Every computation also gives the moments at which the evaluation of
an expression or the execution of a statement begins, in order, whether or not it comes to an end;
an assignment gives the moment at which its value is there as well.  What stops a run is told with
the place of the node at which that happens.

Nothing here changes what a run does; a run that forgets all this is the plain one.
-/

namespace LoxLang.Traced

/-- What a function keeps: the frame that was active when it was created, and its own place. -/
structure Kept where
  frame : FrameId
  place : Place

structure State where
  machine : Machine Kept
  /-- The block or the function for which a frame was made. -/
  maker : FrameId → Option Place

/-- A moment at which a node is evaluated or executed. -/
structure Visit where
  place : Place
  node : Node
  state : State

/-- Why a run stops, and the place of the node at which it does. -/
structure Raised where
  stop : Stop
  place : Place

end Traced

/-- A computation that gives the moments it comes by. -/
def Traced (α : Type) := Traced.State → List Traced.Visit × Outcome Traced.Raised Traced.State α

namespace Traced

variable {α β : Type}

def pure (a : α) : Traced α := fun s => ([], .ok a s)

def bind (x : Traced α) (f : α → Traced β) : Traced β := fun s =>
  match x s with
  | (visits, .ok a t) => (visits ++ (f a t).1, (f a t).2)
  | (visits, .error e t) => (visits, .error e t)
  | (visits, .exhausted) => (visits, .exhausted)

instance : Monad Traced where
  pure := pure
  bind := bind

/-- What a computation comes to. -/
def outcome (x : Traced α) : Action Raised State α := fun s => (x s).2

theorem outcome_bind (x : Traced α) (f : α → Traced β) :
    (x >>= f).outcome = x.outcome >>= fun a => (f a).outcome := by
  funext s
  show (bind x f s).2 = _
  rw [Action.bind_apply, bind, outcome]
  obtain ⟨visits, o⟩ := x s
  cases o <;> rfl

/-! ## Single steps -/

def outOfSteps : Traced α := fun _ => ([], .exhausted)

/-- A moment at which something begins. -/
def visit (place : Place) (node : Node) : Traced Unit := fun s => ([⟨place, node, s⟩], .ok () s)

/-- A step of the machine, which belongs to the node at the given place. -/
def step (place : Place) (x : RunOver Kept α) : Traced α := fun s =>
  match x s.machine with
  | .ok a m => ([], .ok a { s with machine := m })
  | .error e m => ([], .error ⟨e, place⟩ { s with machine := m })
  | .exhausted => ([], .exhausted)

/-- A new function with the given place. -/
def closure (place : Place) (name : Option String) (params : List Token) (body : List Stmt) :
    RunOver Kept (Value Kept) := fun m =>
  .ok (.callable m.nextCallable (.closure name params body ⟨m.active, place⟩))
    { m with nextCallable := m.nextCallable + 1 }

/-- Reads the clock, the only function of the host.  A reading that fails is a fault of the call. -/
def readClock (reading : Nat → Except String Float) (paren : Token) : RunOver Kept (Value Kept) :=
  fun m =>
    match reading m.nativeCalls with
    | .ok x => .ok (.number x) { m with nativeCalls := m.nativeCalls + 1 }
    | .error message =>
      Run.fault (.nativeFailure message) paren { m with nativeCalls := m.nativeCalls + 1 }

/-- A new frame for a block or a function, enclosed by `f`, with the given bindings. -/
def newFrame (maker : Place) (f : FrameId) (bindings : List (String × Value Kept)) :
    Traced FrameId := fun s =>
  ([], .ok s.machine.store.nextFrame
    { machine := { s.machine with store := s.machine.store.push f bindings }
      maker := fun g => if g = s.machine.store.nextFrame then some maker else s.maker g })

/-- A new frame for a block, without bindings, enclosed by the active one. -/
def newInnerFrame (maker : Place) : Traced FrameId := fun s =>
  newFrame maker s.machine.active [] s

/-- Runs `x` with `f` as the active frame, and puts the active frame back on every way out. -/
def inFrame (f : FrameId) (x : Traced α) : Traced α := fun s =>
  let inside := x { s with machine := { s.machine with active := f } }
  (inside.1, inside.2.mapState fun t =>
    { t with machine := { t.machine with active := s.machine.active } })

/-- Runs `x` as one more call of a program function, made by the node at the given place. -/
def inCall (place : Place) (paren : Token) (x : Traced α) : Traced α := fun s =>
  if maxCallDepth ≤ s.machine.depth then
    step place (Run.fault (.callsTooDeep maxCallDepth) paren) s
  else
    let inside := x { s with machine := { s.machine with depth := s.machine.depth + 1 } }
    (inside.1, inside.2.mapState fun t =>
      { t with machine := { t.machine with depth := t.machine.depth - 1 } })

/-! ## Evaluation -/

variable (reading : Nat → Except String Float) (table : Locals)

mutual

def evaluate : Nat → Place → Expr → Traced (Value Kept)
  | 0, _, _ => outOfSteps
  | n + 1, p, e => do
    visit p (.expression e)
    match e with
    | .constant value => pure (.ofConstant value)
    | .grouping inner => evaluate n (p.below 0) inner
    | .unary operator operand => do
      let v ← evaluate n (p.below 0) operand
      step p (Run.applyUnary operator v)
    | .binary left operator right => do
      let a ← evaluate n (p.below 0) left
      let b ← evaluate n (p.below 1) right
      step p (Run.applyBinary operator a b)
    | .logical left operator right => do
      let a ← evaluate n (p.below 0) left
      if Run.decides operator a then pure a else evaluate n (p.below 1) right
    | .read id name => step p (Run.readVariable ⟨Host.timed reading, table⟩ id name)
    | .assign id name value => do
      let v ← evaluate n (p.below 0) value
      -- The variable is looked up now, so this moment counts as well.
      visit p (.expression e)
      step p (Run.assignVariable ⟨Host.timed reading, table⟩ id name v)
      pure v
    | .call callee paren arguments => do
      let f ← evaluate n (p.below 0) callee
      let values ← evaluateAll n p 1 arguments
      match f with
      | .callable _ function =>
        if values.length = function.arity then call n p function paren values
        else step p (Run.fault (.wrongArgumentCount function.arity values.length) paren)
      | _ => step p (Run.fault .notCallable paren)
    | .function _ params body => step p (closure p none params body)

/-- Evaluates expressions that are the children of the node at `p` from number `i` on. -/
def evaluateAll : Nat → Place → Nat → List Expr → Traced (List (Value Kept))
  | 0, _, _, _ => outOfSteps
  | n + 1, p, i, es =>
    match es with
    | [] => pure []
    | e :: rest => do
      let v ← evaluate n (p.below i) e
      let vs ← evaluateAll n p (i + 1) rest
      pure (v :: vs)

/-- Calls a function; the call is the node at `p`. -/
def call : Nat → Place → Callable Kept → Token → List (Value Kept) → Traced (Value Kept)
  | 0, _, _, _, _ => outOfSteps
  | n + 1, p, function, paren, values =>
    match function with
    | .native _ _ => step p (readClock reading paren)
    | .closure _ params body kept => do
      let f ← newFrame kept.place kept.frame ((params.map (·.lexeme)).zip values)
      match ← inCall p paren (inFrame f (executeAll n kept.place 0 body)) with
      | .returned v => pure v
      | .normal => pure .nil

def execute : Nat → Place → Stmt → Traced (Completion Kept)
  | 0, _, _ => outOfSteps
  | n + 1, p, s => do
    visit p (.statement s)
    match s with
    | .expression value => do
      let _ ← evaluate n (p.below 0) value
      pure .normal
    | .print _ value => do
      let v ← evaluate n (p.below 0) value
      step p (Run.print v.display)
      pure .normal
    | .var name initializer => do
      let v ← match initializer with
        | none => pure .nil
        | some value => evaluate n (p.below 0) value
      step p (Run.define name.lexeme v)
      pure .normal
    | .block body => do
      let f ← newInnerFrame p
      inFrame f (executeAll n p 0 body)
    | .ifElse condition thenBranch elseBranch => do
      let v ← evaluate n (p.below 0) condition
      if v.isTruthy then execute n (p.below 1) thenBranch
      else
        match elseBranch with
        | none => pure .normal
        | some branch => execute n (p.below 2) branch
    | .while condition body => loop n p condition body
    | .function name params body => do
      let f ← step p (closure p (some name.lexeme) params body)
      step p (Run.define name.lexeme f)
      pure .normal
    | .return _ value =>
      match value with
      | none => pure (.returned .nil)
      | some value => do
        let v ← evaluate n (p.below 0) value
        pure (.returned v)

/-- Executes statements that are the children of the node at `p` from number `i` on. -/
def executeAll : Nat → Place → Nat → List Stmt → Traced (Completion Kept)
  | 0, _, _, _ => outOfSteps
  | n + 1, p, i, ss =>
    match ss with
    | [] => pure .normal
    | s :: rest => do
      match ← execute n (p.below i) s with
      | .normal => executeAll n p (i + 1) rest
      | .returned v => pure (.returned v)

/-- The turns of the loop at `p`. -/
def loop : Nat → Place → Expr → Stmt → Traced (Completion Kept)
  | 0, _, _, _ => outOfSteps
  | n + 1, p, condition, body => do
    let v ← evaluate n (p.below 0) condition
    if v.isTruthy then
      match ← execute n (p.below 1) body with
      | .normal => loop n p condition body
      | .returned v => pure (.returned v)
    else pure .normal

end

/-- Executes the statements of the program at `p` from number `i` on. -/
def executeProgram (n : Nat) (p : Place) : Nat → List Stmt → Traced Unit
  | _, [] => pure ()
  | i, s :: rest => do
    let _ ← execute reading table n (p.below i) s
    executeProgram n p (i + 1) rest

end Traced

end LoxLang
