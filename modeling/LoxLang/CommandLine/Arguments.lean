import LoxLang.Session
import LoxLang.Text.Similarity

/-!
The arguments of the command line: options, and the names of scripts.

Arguments are read from left to right, and the first one that settles the matter does: a request for
help or for the version, or something that is wrong.  Scripts and options may stand in any order.
What is wrong is told with a usage line and, where there is one, a tip.
-/

namespace LoxLang.CommandLine

/-- The options, all of them without a value. -/
inductive Flag
  | tokens | ast | help | version
  deriving DecidableEq, Repr

namespace Flag

def all : List Flag := [tokens, ast, help, version]

def name : Flag → String
  | tokens => "tokens"
  | ast => "ast"
  | help => "help"
  | version => "version"

def written (f : Flag) : String := "--" ++ f.name

def ofName? (s : String) : Option Flag := all.find? fun f => f.name = s

def ofLetter? : Char → Option Flag
  | 'h' => some help
  | 'V' => some version
  | _ => none

end Flag

/-- What is wrong with the arguments. -/
inductive Problem
  /-- No option is called so.  There may be an option of a similar name. -/
  | unknown (written : String) (similar : Option Flag) (shown : Option (List Flag))
  /-- An option that takes no value was given one. -/
  | withValue (flag : Flag) (value : String) (shown : List Flag)
  /-- An option that may stand once only stands twice. -/
  | repeated (flag : Flag)
  deriving DecidableEq, Repr

/-- What the arguments ask for. -/
inductive Request
  | execute (listed : Listings) (scripts : List String)
  | help
  | version
  | refuse (problem : Problem)
  deriving DecidableEq, Repr

/-! ## Reading the arguments -/

/-- The arguments read so far, in order. -/
structure Collected where
  flags : List Flag := []
  scripts : List String := []
  deriving DecidableEq, Repr

namespace Collected

/-- The options without a second mention of one. -/
def distinct (flags : List Flag) : List Flag :=
  flags.foldl (fun seen f => if seen.contains f then seen else seen ++ [f]) []

/-- The options that a usage line shows: those read so far and the one that may be meant, or all
options when nothing has been read and none is meant. -/
def shown (c : Collected) (meant : Option Flag) : Option (List Flag) :=
  if c.flags.isEmpty && c.scripts.isEmpty && meant.isNone then none
  else some (distinct (c.flags ++ meant.toList))

/-- An option takes effect: help and the version at once, the others once only. -/
def applyFlag (c : Collected) : Flag → Except Request Collected
  | .help => .error .help
  | .version => .error .version
  | f =>
    if c.flags.contains f then .error (.refuse (.repeated f))
    else .ok { c with flags := c.flags ++ [f] }

/-- An option of several letters, with the value behind its equals sign if there is one. -/
def applyLong (c : Collected) (name : String) (value : Option String) : Except Request Collected :=
  match Flag.ofName? name, value with
  | some f, none => c.applyFlag f
  | some f, some v => .error (.refuse (.withValue f v (distinct (c.flags ++ [f]))))
  | none, _ =>
    let similar := (Text.mostSimilar? name (Flag.all.map (·.name))).bind Flag.ofName?
    .error (.refuse (.unknown ("--" ++ name) similar (c.shown similar)))

/-- Options of one letter each. -/
def applyLetters (c : Collected) : List Char → Except Request Collected
  | [] => .ok c
  | letter :: letters =>
    match Flag.ofLetter? letter with
    | some f => (c.applyFlag f).bind fun c => c.applyLetters letters
    | none => .error (.refuse (.unknown (String.ofList ['-', letter]) none none))

end Collected

/-- A name and what stands behind the first equals sign. -/
def splitValue (cs : List Char) : String × Option String :=
  let name := String.ofList (cs.takeWhile (· ≠ '='))
  match cs.dropWhile (· ≠ '=') with
  | [] => (name, none)
  | _ :: value => (name, some (String.ofList value))

/-- Reads arguments; behind two dashes alone there are only scripts. -/
def collect (c : Collected) : List String → Except Request Collected
  | [] => .ok c
  | argument :: rest =>
    match argument.toList with
    | ['-', '-'] => .ok { c with scripts := c.scripts ++ rest }
    | '-' :: '-' :: name =>
      let (name, value) := splitValue name
      (c.applyLong name value).bind fun c => collect c rest
    | '-' :: letter :: letters =>
      (c.applyLetters (letter :: letters)).bind fun c => collect c rest
    | _ => collect { c with scripts := c.scripts ++ [argument] } rest

/-- What the arguments ask for. -/
def Request.ofArguments (arguments : List String) : Request :=
  match collect {} arguments with
  | .error r => r
  | .ok c => .execute ⟨c.flags.contains .tokens, c.flags.contains .ast⟩ c.scripts

/-! ## What is said about the arguments -/

def helpText : String :=
  "Tree-walking interpreter for the Lox language\n\n" ++
  "Usage: lox [OPTIONS] [script]...\n\n" ++
  "Arguments:\n" ++
  "  [script]...  The script to run. Starts a REPL when omitted\n\n" ++
  "Options:\n" ++
  "      --tokens   Print the token stream before parsing\n" ++
  "      --ast      Print the parsed program before evaluating it\n" ++
  "  -h, --help     Print help\n" ++
  "  -V, --version  Print version\n"

def versionText : String := "lox 0.1.0\n"

/-- The usage line, with the given options or with a word for all of them. -/
def usage (shown : Option (List Flag)) : String :=
  let options :=
    match shown with
    | none => [" [OPTIONS]"]
    | some flags => flags.map fun f => " " ++ f.written
  "Usage: lox" ++ String.join options ++ " [script]...\n"

namespace Problem

def message : Problem → String
  | unknown written _ _ => "unexpected argument '" ++ written ++ "' found\n"
  | withValue flag value _ =>
    "unexpected value '" ++ value ++ "' for '" ++ flag.written ++
      "' found; no more were expected\n"
  | repeated flag => "the argument '" ++ flag.written ++ "' cannot be used multiple times\n"

def tip : Problem → String
  | unknown _ (some flag) _ => "\n  tip: a similar argument exists: '" ++ flag.written ++ "'\n"
  | unknown written none _ =>
    "\n  tip: to pass '" ++ written ++ "' as a value, use '-- " ++ written ++ "'\n"
  | _ => ""

/-- The options that the usage line shows. -/
def shown : Problem → Option (List Flag)
  | unknown _ _ shown => shown
  | withValue _ _ shown => some shown
  | repeated _ => none

def text (p : Problem) : String :=
  "error: " ++ p.message ++ p.tip ++ "\n" ++ usage p.shown ++
    "\nFor more information, try '--help'.\n"

end Problem

end LoxLang.CommandLine
