import LoxLang.Proofs.Diagnostic.Caret
import LoxLang.Proofs.Session.Offenders
import LoxLang.Proofs.Session.Story

/-!
Where the frames of a run point.

The faults that a run finds at tokens are those of `offences`, which name the tokens by number
(`Session.tokenFaults_of_run`).  So each frame can be compared with the place of the token at fault
(`Session.caret_at_first_occurrence`).
-/

namespace LoxLang

/-- The diagnostic is one of the parser or of the resolver. -/
def Diagnostic.isAtToken (d : Diagnostic) : Bool := d.phase = .syntactic || d.phase = .resolution

theorem isAtToken_of_mem_tokenFaults {tokens : List Token} {d : Diagnostic}
    (h : d ∈ (tokenFaults tokens).map (·.diagnostic)) : d.isAtToken = true := by
  rw [tokenFaults, List.map_append, List.mem_append] at h
  rcases h with h | h
  · simp [Diagnostic.isAtToken, phase_of_mem_faults h]
  · simp [Diagnostic.isAtToken, phase_of_mem_resolution h]

namespace Session

section

variable {reading : Nat → Except String Float} {bound : Nat} {listed : Listings} {session : Session}
  {source : String} {report : Report}

theorem filter_analyse (source : String) (nextId : NodeId) :
    (analyse source nextId).faults.filter Diagnostic.isAtToken =
      (tokenFaults (Token.ofText source)).map (·.diagnostic) := by
  have hlexical : ((Token.errorsIn source).map (·.diagnostic)).filter Diagnostic.isAtToken = [] := by
    rw [List.filter_eq_nil_iff]
    intro d hd
    simp [Diagnostic.isAtToken, phase_of_mem_errorsIn hd]
  rw [analyse_faults_eq, List.filter_append, hlexical, List.nil_append, List.filter_eq_self]
  exact fun d hd => isAtToken_of_mem_tokenFaults hd

/-- The faults at tokens that a run reports are those of its tokens. -/
theorem tokenFaults_of_run
    (h : run (Host.timed reading) bound listed session source = some report) :
    report.faults.filter Diagnostic.isAtToken =
      (tokenFaults (Token.ofText source)).map (·.diagnostic) := by
  rw [← filter_analyse source session.nextId]
  by_cases hf : (analyse source session.nextId).faults = []
  · rw [hf]
    rcases endings_of_run h with ⟨-, hfaults, -⟩ | ⟨-, hfaults⟩ | ⟨-, d, hfaults, hd⟩
    · rw [hfaults, hf]
    · rw [hfaults]
    · rw [hfaults]
      simp [Diagnostic.isAtToken, hd]
  · rw [run, if_pos (by simp [hf])] at h
    cases h
    rfl

/-- A run reports its faults at tokens in the order of `offences`, each with the line and the lexeme of
the token that has the number.  If that token is on one line of the source, the frame shows the line,
with the caret at the number of bytes before the first occurrence of the lexeme.  That is below the
token just if these are as many as the characters before the token, as they are if the lexeme
does not occur earlier in the shown line and each character before the token takes one byte. -/
theorem caret_at_first_occurrence (file : String)
    (h : run (Host.timed reading) bound listed session source = some report) :
    List.Forall₂ (fun d (o : Nat × Cause) => ∃ t, (Token.ofText source)[o.1]? = some t ∧
        d = .atToken o.2 t ∧ (t.kind ≠ .eof →
          ∃ before, (Token.placed source)[o.1]? = some (before, t) ∧
            (Text.newlines t.lexeme.toList = 0 → ∃ tail n,
              let lead := Text.lead before
              let lexeme := t.lexeme.toList
              let shown := lead ++ lexeme ++ tail
              let frame := d.frame (Text.lines source.toList) file
              d.FoundAt source file lead lexeme tail n ∧
              (frame = d.frameAt file shown lead.length ↔
                Text.byteSize (shown.take n) = lead.length) ∧
              ((∀ k < lead.length, ¬ lexeme <+: shown.drop k) → (∀ c ∈ lead, c.utf8Size = 1) →
                frame = d.frameAt file shown lead.length))))
      (report.faults.filter Diagnostic.isAtToken) (offences (Token.ofText source)) := by
  rw [tokenFaults_of_run h, List.forall₂_map_left_iff]
  refine (tokenFaults_offences rfl).imp ?_
  rintro e ⟨i, cause⟩ ⟨htoken, hcause⟩
  refine ⟨e.token, htoken, ?_, ?_⟩
  · rw [← hcause]
    rfl
  intro heof
  obtain ⟨before, hplaced⟩ := Token.placed_of_getElem? htoken heof
  have hmem := List.mem_of_getElem? hplaced
  refine ⟨before, hplaced, fun hone => ?_⟩
  obtain ⟨after, hsplit, hline⟩ := Token.split_of_mem_placed hmem
  obtain ⟨tail, n, hfound⟩ := Diagnostic.foundAt_of_split e.cause
    (Token.genuine_of_mem_placed hmem) hone hsplit hline file
  exact ⟨tail, n, hfound, hfound.beneath_iff, hfound.beneath⟩

end

/-- The sign of an assignment to a sum, on an indented line. -/
theorem caret_at_first_occurrence_assignment :
    let source := "var a;\n    a + b = c;"
    let host := Host.timed fun _ => .ok 0
    ∃ report, run host 10 {} (.start host) source = some report ∧
      ∃ d t before tail, report.faults.filter Diagnostic.isAtToken = [d] ∧
        d = .atToken .invalidAssignmentTarget t ∧
        (Token.placed source)[6]? = some (before, t) ∧ Text.lead before = "a + b ".toList ∧
        d.frame (Text.lines source.toList) "shell" =
          d.frameAt "shell" (Text.lead before ++ t.lexeme.toList ++ tail) 6 := by
  intro source host
  obtain ⟨report, hrun⟩ : ∃ report, run host 10 {} (.start host) source = some report :=
    Option.isSome_iff_exists.1 (by decide +kernel)
  have hoffences : offences (Token.ofText source) = [(6, .invalidAssignmentTarget)] := by
    decide +kernel
  have hcarets := caret_at_first_occurrence "shell" hrun
  rw [hoffences] at hcarets
  obtain ⟨d, ds, ⟨t, htoken, hd, hplaced⟩, hnil, hfaults⟩ := List.forall₂_cons_right_iff.1 hcarets
  rw [List.forall₂_nil_right_iff.1 hnil] at hfaults
  have htext : ((Token.ofText source)[6]?).map (fun t => (t.kind, t.lexeme.toList)) =
      some (.assignment, ['=']) := by decide +kernel
  rw [htoken] at htext
  obtain ⟨hkind, hlexeme⟩ := Prod.mk.inj (Option.some.inj htext)
  obtain ⟨before, hbefore, hcaret⟩ := hplaced fun he => nomatch he.symm.trans hkind
  have hleads : ((Token.placed source)[6]?).map (fun p => Text.lead p.1) =
      some "a + b ".toList := by decide +kernel
  rw [hbefore] at hleads
  have hlead : Text.lead before = "a + b ".toList := Option.some.inj hleads
  obtain ⟨tail, n, -, -, hbeneath⟩ := hcaret (hlexeme ▸ rfl)
  refine ⟨report, hrun, d, t, before, tail, hfaults, hd, hbefore, hlead, ?_⟩
  rw [hlead, hlexeme] at hbeneath ⊢
  have hbytes : ("a + b ".toList.all fun c => c.utf8Size == 1) = true := by decide +kernel
  refine hbeneath ?_ fun c hc => by simpa using List.all_eq_true.1 hbytes c hc
  intro k hk
  match k, hk with
  | 0, _ | 1, _ | 2, _ | 3, _ | 4, _ | 5, _ => simp

/-- Two faults with the caret in another place than the token: the name of a variable occurs earlier
in a keyword, and a character before the sign takes two bytes. -/
theorem caret_not_beneath_token :
    let host := Host.timed fun _ => .ok 0
    let frames (source : String) := (run host 10 {} (.start host) source).map fun report =>
      report.faults.map fun d => d.frame (Text.lines source.toList) "shell"
    let places (source : String) := (offences (Token.ofText source)).map fun o =>
      ((Token.placed source)[o.1]?).map fun p => (p.2.lexeme, (Text.lead p.1).length)
    places "\x7b var a = 1; var a = 2; \x7d" = [some ("a", 17)] ∧
    frames "\x7b var a = 1; var a = 2; \x7d" =
      some ["Error: VariableAlreadyDeclared (Already a variable with this name in this scope)\n" ++
        "-> shell\n  |\n1 | \x7b var a = 1; var a = 2; \x7d\n  | ---^\n"] ∧
    places "\"é\" = 1;" = [some ("=", 4)] ∧
    frames "\"é\" = 1;" =
      some ["Error: InvalidAssignmentTarget (Invalid assignment target)\n" ++
        "  tip: only variables can be assigned to\n" ++
        "-> shell\n  |\n1 | \"é\" = 1;\n  | -----^\n"] := by
  decide +kernel

end Session

end LoxLang
