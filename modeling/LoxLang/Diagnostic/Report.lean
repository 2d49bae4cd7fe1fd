import LoxLang.Diagnostic.Log
import LoxLang.Text.Blank
import LoxLang.Text.Place

/-!
Reports: the diagnostics of a log as text, one line each or one frame each.

A frame names the fault, gives advice if there is any, and shows the source line without the blanks
around it, with a caret below the place of the fault.  The caret's column is a number of bytes: the
first occurrence of the lexeme in the shown line, or the end of that line.  A fault of which only
the line is known has no caret, and one whose line the source does not have shows none.
-/

namespace LoxLang

/-- How a report shows each diagnostic. -/
inductive ReportStyle
  | line
  | frame
  deriving DecidableEq, Repr

namespace Diagnostic

/-- The first lines of a frame: the fault, the advice and the file. -/
def frameHead (d : Diagnostic) (file : String) : String :=
  let advice :=
    match d.cause.tip? with
    | none => ""
    | some tip => "  tip: " ++ tip ++ "\n"
  "Error: " ++ d.cause.name ++ " (" ++ d.cause.message ++ ")\n" ++ advice ++ "-> " ++ file ++ "\n"

/-- The column of the caret below the shown line, in bytes. -/
def caret? (d : Diagnostic) (shown : List Char) : Option Nat :=
  match d.location with
  | .line => none
  | .endOfText => some (Text.byteSize shown)
  | .lexeme text =>
    (Text.indexOf? text.toList shown).map fun n => Text.byteSize (shown.take n)

/-- The lines of a frame that show the source. -/
def frameBody (d : Diagnostic) (line : List Char) : String :=
  let shown := Text.trimBlank line
  let number := toString d.line
  let bar := String.ofList (List.replicate (number.length + 1) ' ' ++ ['|'])
  let pointer :=
    match d.caret? shown with
    | none => ""
    | some column => String.ofList (' ' :: (List.replicate column '-' ++ ['^']))
  bar ++ "\n" ++ number ++ " | " ++ String.ofList shown ++ "\n" ++ bar ++ pointer ++ "\n"

/-- The frame of a diagnostic about a source with the given lines. -/
def frame (d : Diagnostic) (lines : List (List Char)) (file : String) : String :=
  d.frameHead file ++
    match lines[d.line - 1]? with
    | none => ""
    | some line => d.frameBody line

end Diagnostic

/-- The report of a log about `source`. -/
def Log.report (log : Log) (source : String) (style : ReportStyle) : String :=
  let entry : Diagnostic → String :=
    match style with
    | .line => fun d => d.render log.file ++ "\n"
    | .frame =>
      let lines := Text.lines source.toList
      fun d => d.frame lines log.file
  String.join (log.entries.toList.map entry)

end LoxLang
