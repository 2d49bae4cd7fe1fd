import LoxLang.Proofs.Printing.RoundTrip
import LoxLang.Proofs.Session.Rejection

/-!
Running a printed program.

The text that a program prints as is read as the same tree but for lines and node numbers
(`analyse_source`).  Neither has a say in a run, so a session that runs the one text and a session that
runs the other show the same (`run_source`); only the lines of a runtime fault may differ.
-/

namespace LoxLang

/-- The diagnostic without its line. -/
def Diagnostic.unlined (d : Diagnostic) : Diagnostic := { d with line := 0 }

namespace Session

open Grammar

/-- The printed text of a program without faults has none either, and is read as that program. -/
theorem analyse_source {source : String} {n : NodeId} (hfaults : (analyse source n).faults = [])
    (hfinite : ∀ x ∈ Stmt.numbersAll (analyse source n).program.statements,
      Number.isFinite x = true) (m : NodeId) :
    let again := analyse (sourceProgram (analyse source n).program.statements) m
    again.faults = [] ∧
      bareAll again.program.statements = bareAll (analyse source n).program.statements := by
  intro again
  obtain ⟨-, hread, hresolved⟩ := faults_analyse_eq_nil_iff.1 hfaults
  obtain ⟨ts, ⟨ss, hderived, hbare⟩, hwrites⟩ :=
    declarations_printed (Program.derived_of_faults_eq_nil hread) (genuines_beforeEof source)
      hfinite 0 1
  have hspells : Spells 1 (sourceProgram (analyse source n).program.statements).toList ts :=
    hwrites.spells
  rw [← hspells.beforeEof_ofText] at hderived
  obtain ⟨hstatements, -, hclean⟩ := Program.ofTokens_of_derived hderived m
  have hagain : bareAll again.program.statements = bareAll (analyse source n).program.statements :=
    calc bareAll again.program.statements
      _ = bareAll (unnumbered again.program.statements) := (bareAll_unnumbered _).symm
      _ = bareAll (unnumbered ss) := congrArg bareAll hstatements
      _ = bareAll ss := bareAll_unnumbered ss
      _ = bareAll (analyse source n).program.statements := hbare
  exact ⟨faults_analyse_eq_nil_iff.2
    ⟨hspells.ofText.2, hclean fun _ => id, resolutionFaults_of_bareAll_eq hagain hresolved⟩, hagain⟩

/-- The reports show the same, but for the lines of faults. -/
structure SameShown (a b : Report) : Prop where
  status : a.status = b.status
  lines : a.lines = b.lines
  faults : a.faults.map (·.unlined) = b.faults.map (·.unlined)

/-- Tokens that differ in their lines at most. -/
abbrev Unlined (_ : Nat) (t t' : Token) : Prop := t.unlined = t'.unlined

theorem Unlined.same {k : Nat} {t t' : Token} (h : Unlined k t t') :
    t.kind = t'.kind ∧ t.lexeme = t'.lexeme :=
  ⟨(congrArg Token.kind h : t.unlined.kind = _), (congrArg Token.lexeme h : t.unlined.lexeme = _)⟩

theorem unlined_faults {place : Option Place} {faults faults' : List Diagnostic}
    (h : Traced.SameFaults Unlined place faults faults') :
    faults.map (·.unlined) = faults'.map (·.unlined) := by
  cases h with
  | found => rfl
  | @raised _ cause t t' ht =>
    obtain ⟨hkind, hlexeme⟩ := Unlined.same ht
    simp only [List.map, Diagnostic.unlined, Diagnostic.atToken, hkind, hlexeme]

theorem sameShown_of_unlined {report : Traced.Report} {a b : Report}
    (ha : Traced.SameReport Unlined report a) (hb : Traced.SameReport Unlined report b) :
    SameShown a b where
  status := ha.ending.status.symm.trans hb.ending.status
  lines := ha.ending.lines.symm.trans hb.ending.lines
  faults := (unlined_faults ha.ending.faults).symm.trans (unlined_faults hb.ending.faults)

/-- A new session, in which numbers below `n` are not given out. -/
def startFrom (host : Host) (n : NodeId) : Session := { start host with nextId := n }

/-- A program without faults, and with finite numbers, runs like the text that it prints as, each in
a new session: within the same bounds, with the same status, the same lines and the same runtime
fault, but for the line on which it is. -/
theorem run_source (reading : Nat → Except String Float) (n m : NodeId) (bound : Nat)
    (listed : Listings) (source : String) (hfaults : (analyse source n).faults = [])
    (hfinite : ∀ x ∈ Stmt.numbersAll (analyse source n).program.statements,
      Number.isFinite x = true) :
    let text := sourceProgram (analyse source n).program.statements
    Option.Rel (fun a b => a.status ≠ .staticError ∧ SameShown a b)
      ((startFrom (Host.timed reading) n).run (Host.timed reading) bound listed source)
      ((startFrom (Host.timed reading) m).run (Host.timed reading) bound listed text) := by
  intro text
  obtain ⟨hclean, hbare⟩ := analyse_source hfaults hfinite m
  have htracks : ∀ k, Traced.Tracks Unlined { Traced.Session.start reading with nextId := n }
      (startFrom (Host.timed reading) k) :=
    fun k => (Traced.tracks_start _ reading).skip (Nat.zero_le n) (Nat.zero_le k)
  have hsource := (htracks n).run reading bound listed source (fun _ _ _ => Unlined.same)
    fun _ => rfl
  have htext := (htracks m).run_accepted reading bound listed (fun _ _ _ => Unlined.same) hfaults
    hclean (Stmt.likeAll_of_relabel_eq _ _ hbare.symm)
  cases hrun : Traced.Session.run reading bound
    { Traced.Session.start reading with nextId := n } source with
  | none =>
    rw [hrun] at hsource htext
    rw [rel_none hsource, rel_none htext]
    exact .none
  | some report =>
    rw [hrun] at hsource htext
    obtain ⟨a, ha, hsame⟩ := rel_some hsource
    obtain ⟨b, hb, hsame'⟩ := rel_some htext
    rw [ha, hb]
    refine .some ⟨fun hstatus => ?_, sameShown_of_unlined hsame hsame'⟩
    exact faults_of_staticError ha hstatus hfaults

/-- A program with a loop, a function that is called before the line of its fault, and blank lines. -/
theorem run_source_loop :
    let source := "fun f(x) \x7b\n  return x + missing;\n\x7d\nfor (;;)\n  print f(nil);"
    (analyse source 0).faults = [] ∧
      (∀ x ∈ Stmt.numbersAll (analyse source 0).program.statements, Number.isFinite x = true) ∧
      Option.Rel (fun a b => a.status ≠ .staticError ∧ SameShown a b)
        ((startFrom (Host.timed fun _ => .ok 0) 0).run (Host.timed fun _ => .ok 0) 40 {} source)
        ((startFrom (Host.timed fun _ => .ok 0) 7).run (Host.timed fun _ => .ok 0) 40 {}
          (sourceProgram (analyse source 0).program.statements)) := by
  intro source
  have hfaults : (analyse source 0).faults = [] := by decide +kernel
  have hfinite : ∀ x ∈ Stmt.numbersAll (analyse source 0).program.statements,
      Number.isFinite x = true := by decide +kernel
  exact ⟨hfaults, hfinite, run_source _ 0 7 40 {} source hfaults hfinite⟩

end Session

end LoxLang
