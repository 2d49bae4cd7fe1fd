import LoxLang.Diagnostic.Log
import LoxLang.Machine.Evaluation
import LoxLang.Syntax.Parenthesized
import LoxLang.Syntax.Reading
import LoxLang.Token.Stream

/-!
Sessions: programs run one after the other, each seeing what the earlier ones left in the global
frame.

A run goes from the text to its tokens, to its tree, to the distances of its references, and is
executed only if all that turned up no fault.  A rejected program leaves nothing behind but the
node numbers it has used up.
-/

namespace LoxLang

/-- How a run ended. -/
inductive Status
  | completed
  /-- The program has a fault that shows before it is run, and was not run. -/
  | staticError
  | runtimeError
  deriving DecidableEq, Repr

structure Session where
  machine : Machine
  locals : Locals
  nextId : NodeId

/-- Listings that a run prints before its program does. -/
structure Listings where
  tokens : Bool := false
  tree : Bool := false
  deriving DecidableEq, Repr

namespace Session

def start (host : Host) : Session := ⟨.start host, {}, 0⟩

/-- A program text as far as it can be analysed without running it. -/
structure Analysis where
  tokens : List Token
  program : Program
  findings : List Finding
  /-- What is wrong with the program, phase by phase. -/
  faults : List Diagnostic

/-- Analyses tokens that come with lexical errors. -/
def analyseTokens (tokens : List Token) (lexical : List LexicalError) (nextId : NodeId) : Analysis :=
  let program := Program.ofTokens tokens nextId
  let findings := findingsIn program.statements
  { tokens
    program
    findings
    faults := lexical.map (·.diagnostic) ++ program.faults.map (·.diagnostic) ++
      (resolutionFaults findings).map (·.diagnostic) }

def analyse (source : String) (nextId : NodeId) : Analysis :=
  analyseTokens (Token.ofText source) (Token.errorsIn source) nextId

/-- What came of a run. -/
structure Report where
  status : Status
  /-- The faults of the run. -/
  faults : List Diagnostic
  /-- The listings, as they stand before the printed lines. -/
  listings : String
  /-- What the program printed. -/
  lines : List String
  /-- The session after the run. -/
  session : Session

/-- Everything a run writes to standard output. -/
def Report.output (r : Report) : String :=
  r.listings ++ String.join (r.lines.map fun line => line ++ "\n")

/-- Runs a program text, with a bound on the nested steps of its execution.  There is no report
when the bound is too small. -/
def run (host : Host) (bound : Nat) (listed : Listings) (session : Session) (source : String) :
    Option Report :=
  let analysis := analyse source session.nextId
  let statements := analysis.program.statements
  let session := { session with nextId := analysis.program.nextId }
  let tokenListing := if listed.tokens then Token.listings analysis.tokens else ""
  if !analysis.faults.isEmpty then
    some ⟨.staticError, analysis.faults, tokenListing, [], session⟩
  else
    let treeListing := if listed.tree then parenthesizedProgram statements ++ "\n" else ""
    let locals := session.locals.extend analysis.findings
    let ended (status : Status) (faults : List Diagnostic) (m : Machine) : Option Report :=
      some ⟨status, faults, tokenListing ++ treeListing, m.lines.toList,
        ⟨{ m with lines := #[] }, locals, session.nextId⟩⟩
    match Run.executeProgram ⟨host, locals⟩ bound statements session.machine with
    | .ok () m => ended .completed [] m
    | .error (.fault d) m => ended .runtimeError [d] m
    | .error (.malformed _) _ => none
    | .exhausted => none

end Session

end LoxLang
