import LoxLang.Proofs.Diagnostic.Counts
import LoxLang.Proofs.Machine.Stops
import LoxLang.Proofs.Scope.Analysis
import LoxLang.Proofs.Syntax.TapeReading
import LoxLang.Session

/-!
The status of a run and what it reports.

A run may report its faults to a log as it finds them, phase by phase, and go by a count of its own
(`Session.runInto`); that is the same as running and adding all faults to the log afterwards
(`Session.runInto_eq`).  Each phase finds faults of its own kind only.  So the status of a run and the
diagnostics that it adds tell the same, whatever the log held before; and however a log has come about,
its counts are those of its entries (`Session.status_iff_faults`).
-/

namespace LoxLang

/-! ## The phases of faults -/

theorem Segment.phase_of_error? {s : Segment} {line : Nat} {e : LexicalError}
    (h : s.error? line = some e) : e.diagnostic.phase = .lexical := by
  obtain ⟨piece, text⟩ := s
  cases piece with
  | unexpected c =>
    obtain rfl := Option.some.inj h
    rfl
  | unterminated =>
    obtain rfl := Option.some.inj h
    rfl
  | token kind | blank | comment => cases h

theorem phase_of_mem_errorsIn {text : String} {d : Diagnostic}
    (h : d ∈ (Token.errorsIn text).map (·.diagnostic)) : d.phase = .lexical := by
  obtain ⟨e, he, rfl⟩ := List.mem_map.1 h
  obtain ⟨⟨s, line⟩, -, hs⟩ := List.mem_filterMap.1 he
  exact Segment.phase_of_error? hs

theorem phase_of_mem_faults {tokens : List Token} {nextId : NodeId} {d : Diagnostic}
    (h : d ∈ (Program.ofTokens tokens nextId).faults.map (·.diagnostic)) : d.phase = .syntactic := by
  obtain ⟨e, he, rfl⟩ := List.mem_map.1 h
  obtain ⟨t, -, -, -, hphase⟩ := Tape.read_eq tokens nextId
  exact hphase e he

theorem phase_of_mem_resolution {ss : List Stmt} {d : Diagnostic}
    (h : d ∈ (resolutionFaults (findingsIn ss)).map (·.diagnostic)) : d.phase = .resolution := by
  obtain ⟨e, he, rfl⟩ := List.mem_map.1 h
  exact phase_of_mem_resolutionFaults he

namespace Session

/-! ## Reporting on the way -/

/-- What is left of a run that has reported its faults to a log. -/
structure Account where
  status : Status
  listings : String
  lines : List String
  session : Session
  log : Log

/-- The reporter behind the analysis of a program text, which reports phase by phase. -/
def reported (log : Log) (source : String) (nextId : NodeId) : Reporter :=
  let analysis := analyse source nextId
  let lexed := (Reporter.start log).reportAll ((Token.errorsIn source).map (·.diagnostic))
  let parsed := lexed.reportAll (analysis.program.faults.map (·.diagnostic))
  parsed.reportAll ((resolutionFaults analysis.findings).map (·.diagnostic))

/-- Runs a program text and reports each fault to the log when it is found.  Whether the program is
executed goes by the reporter's own count, not by what the log holds. -/
def runInto (host : Host) (bound : Nat) (listed : Listings) (session : Session) (log : Log)
    (source : String) : Option Account :=
  let analysis := analyse source session.nextId
  let reporter := reported log source session.nextId
  let statements := analysis.program.statements
  let session := { session with nextId := analysis.program.nextId }
  let tokenListing := if listed.tokens then Token.listings analysis.tokens else ""
  if 0 < reporter.staticErrors then some ⟨.staticError, tokenListing, [], session, reporter.log⟩
  else
    let treeListing := if listed.tree then parenthesizedProgram statements ++ "\n" else ""
    let locals := session.locals.extend analysis.findings
    let ended (status : Status) (m : Machine) (log : Log) : Option Account :=
      some ⟨status, tokenListing ++ treeListing, m.lines.toList,
        ⟨{ m with lines := #[] }, locals, session.nextId⟩, log⟩
    match Run.executeProgram ⟨host, locals⟩ bound statements session.machine with
    | .ok () m => ended .completed m reporter.log
    | .error (.fault d) m => ended .runtimeError m (reporter.report d).log
    | .error (.malformed _) _ => none
    | .exhausted => none

/-- The account of a run that adds all its faults to the log at the end. -/
def Report.account (r : Report) (log : Log) : Account :=
  ⟨r.status, r.listings, r.lines, r.session, log.addAll r.faults⟩

section

variable {host : Host} {bound : Nat} {listed : Listings} {session : Session} {log : Log}
  {source : String}

/-- The faults that show before a program is run come phase by phase. -/
theorem faults_analyse (source : String) (nextId : NodeId) :
    ∃ lexical syntactic resolution,
      (analyse source nextId).faults = lexical ++ syntactic ++ resolution ∧
        (∀ d ∈ lexical, d.phase = .lexical) ∧ (∀ d ∈ syntactic, d.phase = .syntactic) ∧
        ∀ d ∈ resolution, d.phase = .resolution :=
  ⟨_, _, _, rfl, fun _ => phase_of_mem_errorsIn, fun _ => phase_of_mem_faults,
    fun _ => phase_of_mem_resolution⟩

theorem phase_ne_of_mem_analyse {nextId : NodeId} {d : Diagnostic}
    (h : d ∈ (analyse source nextId).faults) : d.phase ≠ .runtime := by
  obtain ⟨lexical, syntactic, resolution, heq, hlexical, hsyntactic, hresolution⟩ :=
    faults_analyse source nextId
  intro hruntime
  rw [heq, List.mem_append, List.mem_append] at h
  rcases h with (h | h) | h
  · cases (hlexical d h).symm.trans hruntime
  · cases (hsyntactic d h).symm.trans hruntime
  · cases (hresolution d h).symm.trans hruntime

theorem reported_eq (log : Log) (source : String) (nextId : NodeId) :
    reported log source nextId = (Reporter.start log).reportAll (analyse source nextId).faults := by
  rw [reported, ← Reporter.reportAll_append, ← Reporter.reportAll_append, ← List.append_assoc]
  rfl

theorem staticErrors_reported (log : Log) (source : String) (nextId : NodeId) :
    (reported log source nextId).staticErrors = (analyse source nextId).faults.length := by
  rw [reported_eq, Reporter.staticErrors_reportAll _ fun d => phase_ne_of_mem_analyse]
  exact Nat.zero_add _

theorem log_reported (log : Log) (source : String) (nextId : NodeId) :
    (reported log source nextId).log = log.addAll (analyse source nextId).faults := by
  rw [reported_eq, Reporter.log_reportAll]
  rfl

/-- Reporting on the way or at the end comes to the same. -/
theorem runInto_eq : runInto host bound listed session log source =
    (run host bound listed session source).map (·.account log) := by
  have hcount := staticErrors_reported log source session.nextId
  have hlog := log_reported log source session.nextId
  by_cases hf : (analyse source session.nextId).faults = []
  · have haccepted : ¬ (!(analyse source session.nextId).faults.isEmpty) = true := by simp [hf]
    have hnone : ¬ 0 < (reported log source session.nextId).staticErrors := by
      rw [hcount, hf]
      exact Nat.lt_irrefl 0
    rw [hf] at hlog
    rw [runInto, if_neg hnone, run, if_neg haccepted]
    dsimp only
    generalize Run.executeProgram _ _ _ _ = o
    cases o with
    | ok u m =>
      rw [hlog]
      rfl
    | error e m =>
      cases e with
      | fault d =>
        dsimp only
        rw [Reporter.log_report, hlog]
        rfl
      | malformed operator => rfl
    | exhausted => rfl
  · have hrejected : (!(analyse source session.nextId).faults.isEmpty) = true := by simp [hf]
    have hsome : 0 < (reported log source session.nextId).staticErrors := by
      rw [hcount]
      exact List.length_pos_iff.2 hf
    rw [runInto, if_pos hsome, run, if_pos hrejected, hlog]
    rfl

end

/-! ## Status and faults -/

/-- How a finished run ends: rejected with the faults of its analysis, at its end, or with a fault of
the run. -/
theorem endings_of_run {reading : Nat → Except String Float} {bound : Nat} {listed : Listings}
    {session : Session} {source : String} {report : Report}
    (h : run (Host.timed reading) bound listed session source = some report) :
    (report.status = .staticError ∧ report.faults = (analyse source session.nextId).faults ∧
        report.faults ≠ []) ∨
      (report.status = .completed ∧ report.faults = []) ∨
        report.status = .runtimeError ∧ ∃ d, report.faults = [d] ∧ d.phase = .runtime := by
  by_cases hf : (analyse source session.nextId).faults = []
  · have haccepted : ¬ (!(analyse source session.nextId).faults.isEmpty) = true := by simp [hf]
    rw [run, if_neg haccepted] at h
    dsimp only at h
    let locals := session.locals.extend (analyse source session.nextId).findings
    have horderly : Run.Orderly False (Run.executeProgram ⟨Host.timed reading, locals⟩ bound
        (analyse source session.nextId).program.statements) fun _ => True :=
      Run.orderly_executeProgram (Host.sober_timed reading) bound _ False.elim
    have horderly := horderly session.machine False.elim
    generalize Run.executeProgram _ _ _ _ = o at h horderly
    cases o with
    | ok u m =>
      cases h
      exact .inr (.inl ⟨rfl, rfl⟩)
    | error e m =>
      cases e with
      | fault d =>
        cases h
        exact .inr (.inr ⟨rfl, d, rfl, horderly.2⟩)
      | malformed operator => cases h
    | exhausted => cases h
  · have hrejected : (!(analyse source session.nextId).faults.isEmpty) = true := by simp [hf]
    rw [run, if_pos hrejected] at h
    cases h
    exact .inl ⟨rfl, rfl, hf⟩

end Session

/-- The logs that there may be: empty at first, cleared at times, and reported to by runs of any
sessions. -/
inductive Log.Kept (file : Option String) : Log → Prop
  | empty : Kept file (.empty file)
  | clear {log : Log} : Kept file log → Kept file log.clear
  | run {host : Host} {bound : Nat} {listed : Listings} {session : Session} {log : Log}
    {source : String} {account : Session.Account} : Kept file log →
      Session.runInto host bound listed session log source = some account → Kept file account.log

theorem Log.Kept.tallied {file : Option String} {log : Log} (h : log.Kept file) : log.Tallied := by
  induction h with
  | empty => exact tallied_empty file
  | clear _ _ => exact tallied_clear _
  | run _ hrun ih =>
    rw [Session.runInto_eq] at hrun
    obtain ⟨report, -, rfl⟩ := Option.map_eq_some_iff.1 hrun
    exact ih.addAll report.faults

namespace Session

/-- Reporting on the way comes to what a run reports.  A finished run adds the faults of the analysis
phase by phase, or at most one fault of the run; its status says which, whatever was in the log before.
The counts of a log are those of its entries, after any runs. -/
theorem status_iff_faults (reading : Nat → Except String Float) :
    (∀ host bound listed session log source, runInto host bound listed session log source =
      (run host bound listed session source).map (·.account log)) ∧
    (∀ bound listed session log source account,
      runInto (Host.timed reading) bound listed session log source = some account →
      ∃ added, account.log.entries.toList = log.entries.toList ++ added ∧
        account.log.file = log.file ∧
        ((∃ lexical syntactic resolution, added = lexical ++ syntactic ++ resolution ∧
            (∀ d ∈ lexical, d.phase = .lexical) ∧ (∀ d ∈ syntactic, d.phase = .syntactic) ∧
            ∀ d ∈ resolution, d.phase = .resolution) ∨
          ∃ d, added = [d] ∧ d.phase = .runtime) ∧
        (account.status = .staticError ↔ ∃ d ∈ added, d.phase ≠ .runtime) ∧
        (account.status = .runtimeError ↔ added.countP (·.phase = .runtime) = 1) ∧
        (account.status = .completed ↔ added = [])) ∧
    ∀ (file : Option String) (log : Log), log.Kept file →
      (∀ p, log.count p = log.entries.toList.countP (·.phase = p)) ∧
      (log.hasStaticErrors = true ↔ ∃ d ∈ log.entries.toList, d.phase ≠ .runtime) ∧
      (log.hasRuntimeError = true ↔ ∃ d ∈ log.entries.toList, d.phase = .runtime) := by
  refine ⟨fun _ _ _ _ _ _ => runInto_eq, ?_, ?_⟩
  · intro bound listed session log source account h
    rw [runInto_eq] at h
    obtain ⟨report, hrun, rfl⟩ := Option.map_eq_some_iff.1 h
    refine ⟨report.faults, log.toList_addAll _, log.file_addAll _, ?_⟩
    have hstatus : (report.account log).status = report.status := rfl
    rw [hstatus]
    rcases endings_of_run hrun with ⟨hs, hfaults, hne⟩ | ⟨hs, hfaults⟩ | ⟨hs, d, hfaults, hd⟩
    · have hphase : ∀ d ∈ report.faults, d.phase ≠ .runtime :=
        fun d hd => phase_ne_of_mem_analyse (hfaults ▸ hd)
      have hcount : report.faults.countP (·.phase = .runtime) = 0 :=
        List.countP_eq_zero.2 fun d hd => by simpa using hphase d hd
      obtain ⟨d, hd⟩ := List.exists_mem_of_ne_nil _ hne
      rw [hs, hcount]
      refine ⟨.inl (hfaults ▸ faults_analyse source session.nextId), ?_, ?_, ?_⟩
      · exact iff_of_true rfl ⟨d, hd, hphase d hd⟩
      · exact iff_of_false (fun h => nomatch h) (fun h => nomatch h)
      · exact iff_of_false (fun h => nomatch h) hne
    · rw [hs, hfaults]
      refine ⟨.inl ⟨[], [], [], rfl, ?_, ?_, ?_⟩, ?_, ?_, iff_of_true rfl rfl⟩
      · exact fun _ h => nomatch h
      · exact fun _ h => nomatch h
      · exact fun _ h => nomatch h
      · exact iff_of_false (fun h => nomatch h) fun ⟨_, h, _⟩ => nomatch h
      · exact iff_of_false (fun h => nomatch h) (fun h => nomatch h)
    · rw [hs, hfaults]
      refine ⟨.inr ⟨d, rfl, hd⟩, ?_, ?_, ?_⟩
      · refine iff_of_false (fun h => nomatch h) ?_
        rintro ⟨d', hd', hphase⟩
        exact hphase (List.mem_singleton.1 hd' ▸ hd)
      · refine iff_of_true rfl ?_
        rw [List.countP_singleton, if_pos (decide_eq_true hd)]
      · exact iff_of_false (fun h => nomatch h) (List.cons_ne_nil d [])
  · intro file log h
    exact ⟨h.tallied, h.tallied.hasStaticErrors_iff, h.tallied.hasRuntimeError_iff⟩

/-- A program that fails when it is run, after a rejected one has left a fault in the log. -/
theorem status_iff_faults_later :
    let host := Host.timed fun _ => .ok 0
    ∃ rejected failed, runInto host 10 {} (.start host) (.empty none) "(" = some rejected ∧
      runInto host 10 {} rejected.session rejected.log "-nil;" = some failed ∧
      failed.status = .runtimeError ∧
      (∃ added, failed.log.entries.toList = rejected.log.entries.toList ++ added ∧
        added.countP (·.phase = .runtime) = 1) ∧
      failed.log.Kept none ∧
      failed.log.count .runtime = failed.log.entries.toList.countP (·.phase = .runtime) := by
  intro host
  have hruns : ((runInto host 10 {} (.start host) (.empty none) "(").bind fun rejected =>
      (runInto host 10 {} rejected.session rejected.log "-nil;").map fun failed =>
        decide (failed.status = .runtimeError)) = some true := by decide +kernel
  obtain ⟨rejected, hrejected, hlater⟩ := Option.bind_eq_some_iff.1 hruns
  obtain ⟨failed, hfailed, hdecide⟩ := Option.map_eq_some_iff.1 hlater
  have hstatus : failed.status = .runtimeError := of_decide_eq_true hdecide
  have hkept : failed.log.Kept none := .run (.run .empty hrejected) hfailed
  obtain ⟨-, hreports, hcounts⟩ := status_iff_faults fun _ => .ok 0
  obtain ⟨added, hentries, -, -, -, hruntime, -⟩ := hreports _ _ _ _ _ _ hfailed
  exact ⟨rejected, failed, hrejected, hfailed, hstatus, ⟨added, hentries, hruntime.1 hstatus⟩, hkept,
    (hcounts none _ hkept).1 .runtime⟩

end Session

end LoxLang
