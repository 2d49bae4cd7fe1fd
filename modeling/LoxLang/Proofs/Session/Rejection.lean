import LoxLang.Proofs.Traced.Sessions

/-!
Rejected inputs.

A text that the analysis rejects is not run, and uses up node numbers at most.  The session behind it
corresponds to the same traced session as the one before it, since numbers that are passed over change
nothing; so whatever comes next cannot tell whether the text was there (`endings_without`).
-/

namespace LoxLang.Session

variable {reading : Nat → Except String Float} {s : Session} {bound : Nat} {listed : Listings}
  {source : String} {report : Report}

/-- Only a text with faults is rejected. -/
theorem faults_of_staticError (h : s.run (Host.timed reading) bound listed source = some report)
    (hstatus : report.status = .staticError) : (analyse source s.nextId).faults ≠ [] := by
  intro hf
  obtain ⟨listings, hrun⟩ := Traced.run_accepted reading bound listed hf
  obtain ⟨-, -, -, hrun⟩ := Traced.session_of_concludePlain (hrun.symm.trans h)
  exact hrun hstatus

/-- A rejected text prints nothing and changes nothing but the next node number. -/
theorem session_of_staticError (h : s.run (Host.timed reading) bound listed source = some report)
    (hstatus : report.status = .staticError) :
    report.lines = [] ∧ ∃ later, s.nextId ≤ later ∧ report.session = { s with nextId := later } := by
  obtain ⟨listings, hrun⟩ := Traced.run_rejected reading bound listed
    (faults_of_staticError h hstatus)
  rw [h] at hrun
  cases hrun
  exact ⟨rfl, _, nextId_le_analyse source s.nextId, rfl⟩

/-- Sessions that differ in the next node number answer all inputs alike, if neither has given out
that number. -/
theorem endings_later {t : Traced.Session} (h : Traced.Tracks (fun _ => Eq) t s)
    (reading : Nat → Except String Float) {later : NodeId} (hle : s.nextId ≤ later)
    (inputs : List Input) :
    ({ s with nextId := later } : Session).endings (Host.timed reading) inputs =
      s.endings (Host.timed reading) inputs := by
  have hlater : Traced.Tracks (fun _ => Eq) t { s with nextId := later } :=
    h.skip (Nat.le_refl _) hle
  rw [hlater.plain_endings reading inputs, h.plain_endings reading inputs]

/-- Every session is tracked. -/
theorem exists_tracks {before : List Input}
    (h : (start (Host.timed reading)).after (Host.timed reading) before = some s) :
    ∃ t, (Traced.Session.start reading).after reading before = some t ∧
      Traced.Tracks (fun _ => Eq) t s := by
  have hrel := (Traced.tracks_start (fun _ => Eq) reading).after reading Traced.same_token
    (fun _ _ _ => rfl) before
  cases ht : (Traced.Session.start reading).after reading before with
  | none =>
    rw [ht] at hrel
    rw [show (start (Host.timed reading)).after _ before = none from rel_none hrel] at h
    cases h
  | some t =>
    rw [ht] at hrel
    obtain ⟨s', hs', htracks⟩ := rel_some hrel
    cases h.symm.trans hs'
    exact ⟨t, rfl, htracks⟩

/-- A rejected text leaves no trace in a session: it prints nothing and changes neither the machine
nor the table of distances, and without it the session shows the same at every other input. -/
theorem endings_without_rejected (reading : Nat → Except String Float) (before after : List Input)
    (bound : Nat) (listed : Listings) (source : String) (s : Session) (report : Report)
    (hs : (start (Host.timed reading)).after (Host.timed reading) before = some s)
    (hrun : s.run (Host.timed reading) bound listed source = some report)
    (hstatus : report.status = .staticError) :
    report.lines = [] ∧ report.session.machine = s.machine ∧
      report.session.locals = s.locals ∧
      ((start (Host.timed reading)).endings (Host.timed reading)
          (before ++ (bound, listed, source) :: after)).eraseIdx before.length =
        (start (Host.timed reading)).endings (Host.timed reading) (before ++ after) := by
  obtain ⟨hlines, later, hle, hsession⟩ := session_of_staticError hrun hstatus
  obtain ⟨t, -, htracks⟩ := exists_tracks hs
  refine ⟨hlines, hsession ▸ rfl, hsession ▸ rfl, ?_⟩
  rw [endings_append hs, endings_append hs, endings, hrun, List.eraseIdx_append_of_length_le
    (Nat.le_of_eq (length_endings hs)), length_endings hs, Nat.sub_self]
  have hrest := endings_later htracks reading hle after
  rw [← hsession] at hrest
  exact congrArg _ hrest

/-- A name declared twice is rejected between two programs that share a function, whose result is a
clock that cannot be read. -/
theorem endings_without_redeclaration :
    ∃ s report,
      let host := Host.timed fun _ => .error "clock went backwards"
      let before : List Input := [(20, ({} : Listings), "fun f() { return g; } var g = clock;")]
      let source := "{ var a; var a; f(); }"
      let after : List Input := [(20, ({} : Listings), "print f()();")]
      (start host).after host before = some s ∧ s.run host 20 {} source = some report ∧
        report.status = .staticError ∧ report.lines = [] ∧
        ((start host).endings host (before ++ (20, {}, source) :: after)).eraseIdx before.length =
          (start host).endings host (before ++ after) := by
  let host := Host.timed fun _ => .error "clock went backwards"
  let before : List Input := [(20, ({} : Listings), "fun f() { return g; } var g = clock;")]
  have hstatus : (((start host).after host before).bind fun s =>
      s.run host 20 {} "{ var a; var a; f(); }").map (·.status) = some .staticError := by
    decide +kernel
  obtain ⟨report, hreport, hstatus⟩ := Option.map_eq_some_iff.1 hstatus
  obtain ⟨s, hs, hrun⟩ := Option.bind_eq_some_iff.1 hreport
  obtain ⟨hlines, -, -, hendings⟩ := endings_without_rejected _ before _ 20 {} _ s report
    hs hrun hstatus
  exact ⟨s, report, hs, hrun, hstatus, hlines, hendings⟩

end LoxLang.Session
