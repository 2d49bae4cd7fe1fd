import LoxLang.CommandLine.Arguments
import LoxLang.Diagnostic.Report

/-!
The program as it is called from the command line.

With the name of a script the script is run, and the exit code says how that ended.  Without one,
each line of the input is a run of its own in one session, and each report is about the line just
run.  More than one script is a wrong use.
-/

namespace LoxLang.CommandLine

/-- Why a script cannot be read. -/
inductive ReadError
  | notFound
  | isDirectory
  /-- The bytes are no UTF-8 text. -/
  | notText
  | other (reason : String)
  deriving DecidableEq, Repr

def ReadError.reason : ReadError → String
  | notFound => "No such file or directory (os error 2)"
  | isDirectory => "Is a directory (os error 21)"
  | notText => "stream did not contain valid UTF-8"
  | other reason => reason

/-- What the program leaves behind: the exit code and what it has written. -/
structure Result where
  exit : Nat
  stdout : String
  stderr : String
  deriving DecidableEq, Repr

def usageExit : Nat := 64
def dataExit : Nat := 65
def softwareExit : Nat := 70
def ioExit : Nat := 74

/-- The exit code for wrong arguments. -/
def argumentsExit : Nat := 2

def statusExit : Status → Nat
  | .completed => 0
  | .staticError => dataExit
  | .runtimeError => softwareExit

/-- The text that bytes encode. -/
def textOf (bytes : ByteArray) : Except ReadError String :=
  match String.fromUTF8? bytes with
  | some text => .ok text
  | none => .error .notText

section

variable (host : Host) (bound : Nat) (listed : Listings)

/-- Runs one program text and reports on it. -/
def runText (session : Session) (file : Option String) (style : ReportStyle) (source : String) :
    Option (Session × Result) :=
  (session.run host bound listed source).map fun r =>
    (r.session, ⟨statusExit r.status, r.output,
      ((Log.empty file).addAll r.faults).report source style⟩)

/-- Runs the script `path` with the given content. -/
def runScript (path : String) (content : Except ReadError ByteArray) : Option Result :=
  match content.bind textOf with
  | .error e => some ⟨ioExit, "", "Problem reading file " ++ path ++ ": " ++ e.reason ++ "\n"⟩
  | .ok source => (runText host bound listed (.start host) (some path) .frame source).map (·.2)

/-- One line of a conversation: what it writes, and the session that goes on, or the end of the
conversation when the line is no text. -/
def runLine (session : Session) (line : Except ReadError String) :
    Option (Option Session × Result) :=
  match line with
  | .error e =>
    some (none, ⟨ioExit, "",
      "Error: Io(Error \x7b kind: InvalidData, message: \"" ++ e.reason ++ "\" \x7d)\n"⟩)
  | .ok source =>
    (runText host bound listed session none .line source).map fun r =>
      (some r.1, { r.2 with exit := 0 })

/-- A conversation, line after line, up to the end of the input or a line that is no text. -/
def converse (session : Session) : List (Except ReadError String) → Option Result
  | [] => some ⟨0, "", ""⟩
  | line :: rest => do
    let (next, here) ← runLine host bound listed session line
    match next with
    | none => return here
    | some session =>
      let there ← converse session rest
      return ⟨there.exit, here.stdout ++ there.stdout, here.stderr ++ there.stderr⟩

end

/-- The lines of an input. -/
def inputLines (input : ByteArray) : List (Except ReadError String) :=
  (Text.pieces 10 13 input.toList).map fun bytes => textOf ⟨bytes.toArray⟩

/-- What the program does when it is called.  There is no result when the bound on the nested steps
of a run is too small. -/
def call (host : Host) (bound : Nat) (read : String → Except ReadError ByteArray)
    (input : ByteArray) (arguments : List String) : Option Result :=
  match Request.ofArguments arguments with
  | .help => some ⟨0, helpText, ""⟩
  | .version => some ⟨0, versionText, ""⟩
  | .refuse problem => some ⟨argumentsExit, "", problem.text⟩
  | .execute listed [] => converse host bound listed (.start host) (inputLines input)
  | .execute listed [path] => runScript host bound listed path (read path)
  | .execute _ _ => some ⟨usageExit, "", "Usage: lox [script]\n"⟩

end LoxLang.CommandLine
