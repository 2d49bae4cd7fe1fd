import LoxLang.Diagnostic

/-!
The log of a session: the diagnostics in the order in which they came, the file they are about, and
how many of each phase there are.  The counts are kept as the diagnostics come in.
-/

namespace LoxLang

/-- A number for each phase. -/
structure PhaseCounts where
  lexical : Nat := 0
  syntactic : Nat := 0
  resolution : Nat := 0
  runtime : Nat := 0
  deriving DecidableEq, Repr

namespace PhaseCounts

def get (counts : PhaseCounts) : Phase → Nat
  | .lexical => counts.lexical
  | .syntactic => counts.syntactic
  | .resolution => counts.resolution
  | .runtime => counts.runtime

def increment (counts : PhaseCounts) : Phase → PhaseCounts
  | .lexical => { counts with lexical := counts.lexical + 1 }
  | .syntactic => { counts with syntactic := counts.syntactic + 1 }
  | .resolution => { counts with resolution := counts.resolution + 1 }
  | .runtime => { counts with runtime := counts.runtime + 1 }

theorem get_increment (counts : PhaseCounts) (p q : Phase) :
    (counts.increment p).get q = counts.get q + if p = q then 1 else 0 := by
  cases p <;> cases q <;> rfl

end PhaseCounts

structure Log where
  file : String
  entries : Array Diagnostic := #[]
  counts : PhaseCounts := {}

namespace Log

/-- The empty log about a file, or about the shell. -/
def empty (file : Option String) : Log := { file := file.getD "shell" }

def add (log : Log) (d : Diagnostic) : Log :=
  { log with entries := log.entries.push d, counts := log.counts.increment d.phase }

def addAll (log : Log) (ds : List Diagnostic) : Log := ds.foldl add log

def clear (log : Log) : Log := { log with entries := #[], counts := {} }

def size (log : Log) : Nat := log.entries.size

def count (log : Log) (p : Phase) : Nat := log.counts.get p

def hasErrors (log : Log) : Bool := !log.entries.isEmpty

/-- Whether there is a diagnostic of another phase than the run. -/
def hasStaticErrors (log : Log) : Bool := log.count .runtime < log.size

def hasRuntimeError (log : Log) : Bool := 0 < log.count .runtime

end Log

end LoxLang
