import LoxLang.CommandLine
import Std.Time.DateTime.Timestamp

/-!
The program: reading files and lines, writing what comes of them.

The clock of a run shows the time at which it started, a millionth of a second more with every
reading.  If that time is before the epoch, every reading fails.
-/

namespace LoxLang.CommandLine

/-- The bound on the nested steps of a run: more than any run takes. -/
def stepBound : Nat := 2 ^ 62

def presentHost : IO Host := do
  let now := (← Std.Time.Timestamp.now).toNanosecondsSinceUnixEpoch.val
  if now < 0 then return .timed fun _ => .error "second time provided was later than self"
  let start := Float.ofInt now / 1000000000
  return .standard fun n => start + n.toFloat / 1000000

def readScript (path : String) : IO (Except ReadError ByteArray) := do
  try
    return .ok (← IO.FS.readBinFile path)
  catch
    | .noFileOrDirectory _ _ _ => return .error .notFound
    | .inappropriateType _ _ _ => return .error .isDirectory
    | e => return .error (.other (toString e))

/-- The bytes of the input up to the next newline, this one included. -/
partial def readLineBytes (input : IO.FS.Stream) (before : ByteArray) : IO ByteArray := do
  let next ← input.read 1
  if next.isEmpty then return before
  else if next[0]! = 10 then return before ++ next
  else readLineBytes input (before ++ next)

/-- The next line of the input, if there is one. -/
def readLine (input : IO.FS.Stream) : IO (Option (Except ReadError String)) := do
  return (inputLines (← readLineBytes input .empty)).head?

def write (result : Result) : IO Unit := do
  IO.print result.stdout
  (← IO.getStdout).flush
  IO.eprint result.stderr

def writeExhausted : IO UInt32 := do
  IO.eprintln "Too many steps"
  return UInt32.ofNat softwareExit

partial def converseWith (input : IO.FS.Stream) (listed : Listings) (session : Session) :
    IO UInt32 := do
  match ← readLine input with
  | none => return 0
  | some line =>
    match runLine (← presentHost) stepBound listed session line with
    | none => writeExhausted
    | some (next, result) =>
      write result
      match next with
      | some session => converseWith input listed session
      | none => return UInt32.ofNat result.exit

end LoxLang.CommandLine

open LoxLang
open LoxLang.CommandLine

def main (arguments : List String) : IO UInt32 := do
  let host ← presentHost
  let outcome ← match Request.ofArguments arguments with
    | .execute listed [] => return ← converseWith (← IO.getStdin) listed (.start host)
    | .execute listed [path] =>
      pure (runScript host stepBound listed path (← readScript path))
    | _ => pure (call host stepBound (fun _ => .error .notFound) .empty arguments)
  match outcome with
  | some result =>
    write result
    return UInt32.ofNat result.exit
  | none => writeExhausted
