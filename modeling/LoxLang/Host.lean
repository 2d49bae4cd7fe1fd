import LoxLang.Diagnostic
import LoxLang.Value

/-!
What a run gets from outside: functions that programs may call, and the readings of a clock.

The host says which native functions there are and what each answers.  An answer may hang on how
many native calls came before it in the session, which is how a clock goes on; so a run is a
function of its program and its host.
-/

namespace LoxLang

structure Host where
  /-- The names and arities of the native functions. -/
  natives : List (String × Nat)
  /-- The answer of a native function, given how many native calls came before and the values it is
  called with. -/
  answer : String → Nat → List Value → Except Cause Value

/-- The host with a clock only.  Its `n`-th reading may fail, as that of a clock which stands before
the epoch does, with a message in place of the time. -/
def Host.timed (reading : Nat → Except String Float) : Host where
  natives := [("clock", 0)]
  answer := fun _ n _ =>
    match reading n with
    | .ok x => .ok (.number x)
    | .error message => .error (.nativeFailure message)

/-- The host with a clock only, which can always be read: the `n`-th reading is `clock n`. -/
def Host.standard (clock : Nat → Float) : Host := .timed fun n => .ok (clock n)

/-- A host without any native function. -/
def Host.bare : Host where
  natives := []
  answer := fun name _ _ => .error (.notDeclared name)

end LoxLang
