import LoxLang.Proofs.Session.Rejection
import LoxLang.Proofs.Traced.Reached

/-!
Names that are looked up before they are bound.

A declaration binds its name behind the initializer, and the resolution takes it for declared before.
In between, the name can be reached from within the initializer, and from nowhere else; a read only
from a function there.  So a runtime fault about a name that is not declared is raised at a global
reference, or else within the initializer of the very variable (`notDeclared_initializing`).
-/

namespace LoxLang.Traced

variable {t : Session} {s : LoxLang.Session}

/-- A runtime fault about a name was raised at a reference to it, which is global, or else within the
initializer of its own variable; a read is then in a function there. -/
def Report.Excused (report : Report) : Prop :=
  report.ending.status = .runtimeError →
    ∀ d ∈ report.ending.faults, ∀ name, d.cause = .notDeclared name →
      ∃ place node use, report.raisedAt = some place ∧
        place.node? report.session.programs = some node ∧ node.reference? = some use ∧
        use.name.lexeme = name ∧ d = .atToken (.notDeclared name) use.name ∧
        ∀ distance, report.session.locals[use.id]? = some distance →
          Initializing report.session.programs place distance name ∧
            (use.isAssignment = false → 0 < distance)

theorem excused_of_conclude {p : Program} {o : Outcome Raised State Unit} {report : Report}
    (h : t.conclude p o = some report) {good : Unit → State → Prop} {bad : State → Prop}
    (ho : o.Meets good (fun e σ => bad σ ∧ Traced.Excused (t.groundWith True p) e) True) :
    report.Excused := by
  unfold Session.conclude at h
  split at h
  · cases h
    exact fun hstatus => Status.noConfusion hstatus
  · cases h
    intro _ d hd name hcause
    cases List.mem_singleton.1 hd
    obtain ⟨node, use, hnode, huse, hname, hfault, hlocal⟩ := ho.2 _ name rfl hcause
    refine ⟨_, node, use, rfl, hnode, huse, hname, hfault, fun distance hdistance => ?_⟩
    obtain ⟨hinitializing, hread⟩ := hlocal distance hdistance
    exact ⟨hinitializing, hread trivial⟩
  · cases h
  · cases h

/-- A text is run in sessions that are level, in which only texts without faults have been run. -/
theorem Level.run (h : Level True t s) (reading : Nat → Except String Float) (bound : Nat)
    (listed : Listings) (source : String) :
    Option.Rel (fun report plain => (report.ending = plain.ending ∧ report.Excused) ∧
        Level True report.session plain.session)
      (t.run reading bound source) (s.run (Host.timed reading) bound listed source) := by
  have hrun := h.tracks.run reading bound listed source same_token fun _ => rfl
  refine rel_imp hrun fun report plain ht hplain hsame => ?_
  by_cases hf : (LoxLang.Session.analyse source s.nextId).faults = []
  · obtain ⟨-, -, hresolved⟩ := LoxLang.Session.faults_analyse_eq_nil_iff.1 hf
    have hconclude := (Session.run_accepted reading bound (h.nextId ▸ hf)).symm.trans ht
    rw [h.nextId] at hconclude
    obtain ⟨listings, haccepted⟩ := run_accepted reading bound listed hf
    obtain ⟨m, hm, hsession', -⟩ := session_of_concludePlain (haccepted.symm.trans hplain)
    obtain ⟨σ, hσ, hsession⟩ := session_of_conclude hconclude
    have hexecuted := h.steady.executed reading bound (h.numbered (Token.ofText source))
      (Program.statements_proper (Token.ofText source) s.nextId) fun _ => hresolved
    refine ⟨⟨hsame.ending.eq, excused_of_conclude hconclude hexecuted.2⟩, ?_⟩
    rw [hsession, hsession']
    exact h.left rfl (fun _ => hresolved) hσ hm
  · obtain ⟨listings, hrejected⟩ := run_rejected reading bound listed hf
    cases hrejected.symm.trans hplain
    cases (Session.run_rejected reading bound (h.nextId ▸ hf)).symm.trans ht
    refine ⟨⟨hsame.ending.eq, fun hstatus => Status.noConfusion hstatus⟩, ?_⟩
    rw [Session.skip, h.nextId]
    exact h.later (LoxLang.Session.nextId_le_analyse source s.nextId)

theorem Level.after (h : Level True t s) (reading : Nat → Except String Float)
    (inputs : List LoxLang.Session.Input) :
    Option.Rel (Level True) (t.after reading inputs) (s.after (Host.timed reading) inputs) := by
  induction inputs generalizing t s with
  | nil => exact .some h
  | cons input rest ih =>
    obtain ⟨bound, listed, source⟩ := input
    exact rel_bind (h.run reading bound listed source) fun _ _ _ _ hsame => ih hsame.2

/-- In a session in which texts are run that are accepted, or rejected, a runtime fault about a name
that is not declared is raised at a read of that name or an assignment to it.  If that has a distance,
it is within the initializer of a declaration of this name, in the scope at that distance, and a read
is in a function there. -/
theorem notDeclared_initializing (reading : Nat → Except String Float)
    (before : List LoxLang.Session.Input) (s : LoxLang.Session) (bound : Nat) (listed : Listings)
    (source : String) (plain : LoxLang.Session.Report) (d : Diagnostic) (name : String)
    (hs : (LoxLang.Session.start (Host.timed reading)).after (Host.timed reading) before = some s)
    (hrun : s.run (Host.timed reading) bound listed source = some plain)
    (hstatus : plain.status = .runtimeError) (hd : d ∈ plain.faults)
    (hcause : d.cause = .notDeclared name) :
    ∃ t report place node use,
      (Session.start reading).after reading before = some t ∧
        t.run reading bound source = some report ∧ report.ending = plain.ending ∧
        report.raisedAt = some place ∧ place.node? report.session.programs = some node ∧
        node.reference? = some use ∧ use.name.lexeme = name ∧
        d = .atToken (.notDeclared name) use.name ∧
        ∀ distance, plain.session.locals[use.id]? = some distance →
          Initializing report.session.programs place distance name ∧
            (use.isAssignment = false → 0 < distance) := by
  have hafter := (level_start True reading).after reading before
  rw [hs] at hafter
  cases ht : (Session.start reading).after reading before with
  | none =>
    rw [ht] at hafter
    cases hafter
  | some t =>
    rw [ht] at hafter
    cases hafter with
    | some hlevel =>
      have hboth := hlevel.run reading bound listed source
      rw [hrun] at hboth
      cases hreport : t.run reading bound source with
      | none =>
        rw [hreport] at hboth
        cases hboth
      | some report =>
        rw [hreport] at hboth
        cases hboth with
        | some hrel =>
          obtain ⟨⟨hending, hexcused⟩, hlevel'⟩ := hrel
          have hstatus' : report.ending.status = .runtimeError := hending ▸ hstatus
          have hd' : d ∈ report.ending.faults := hending ▸ hd
          obtain ⟨place, node, use, hplace, hnode, huse, hname, hfault, hlocal⟩ :=
            hexcused hstatus' d hd' name hcause
          refine ⟨t, report, place, node, use, rfl, hreport, hending, hplace, hnode, huse, hname,
            hfault, fun distance hdistance => hlocal distance ?_⟩
          rw [hlevel'.locals]
          exact hdistance

/-- A function in an initializer reads the variable too early. -/
theorem notDeclared_initializing_call :
    let host := Host.timed fun _ => .ok 0
    ∃ (plain : LoxLang.Session.Report) (report : Report) (place : Place) (use : Reference),
      (LoxLang.Session.start host).run host 20 {} "{ var a = fun () { return a; }(); }" =
          some plain ∧
        plain.status = .runtimeError ∧ plain.faults = [⟨.notDeclared "a", 1, .lexeme "a"⟩] ∧
        report.ending = plain.ending ∧ report.raisedAt = some place ∧ use.name.lexeme = "a" ∧
        ∀ distance, plain.session.locals[use.id]? = some distance →
          Initializing report.session.programs place distance "a" := by
  intro host
  have hrun : ((LoxLang.Session.start host).run host 20 {}
      "{ var a = fun () { return a; }(); }").map (fun plain => (plain.status, plain.faults)) =
        some (.runtimeError, [⟨.notDeclared "a", 1, .lexeme "a"⟩]) := by decide +kernel
  obtain ⟨plain, hplain, hshown⟩ := Option.map_eq_some_iff.1 hrun
  obtain ⟨hstatus, hfaults⟩ := Prod.mk.inj hshown
  obtain ⟨t, report, place, node, use, -, -, hending, hplace, -, -, hname, -, hlocal⟩ :=
    notDeclared_initializing (fun _ => .ok 0) [] _ 20 {} _ plain
      ⟨.notDeclared "a", 1, .lexeme "a"⟩ "a" rfl hplain hstatus (hfaults ▸ List.mem_singleton.2 rfl) rfl
  exact ⟨plain, report, place, use, hplain, hstatus, hfaults, hending, hplace, hname,
    fun distance hdistance => (hlocal distance hdistance).1⟩

/-- That read is local: it has the distance of the block, and the program has no faults. -/
theorem local_read_not_declared :
    let host := Host.timed fun _ => .ok 0
    let source := "{ var a = fun () { return a; }(); }"
    (LoxLang.Session.analyse source 0).faults = [] ∧
      ((LoxLang.Session.start host).run host 20 {} source).map
        (fun plain => (plain.status, plain.faults)) =
          some (.runtimeError, [⟨.notDeclared "a", 1, .lexeme "a"⟩]) ∧
      ((Session.start fun _ => .ok 0).run (fun _ => .ok 0) 20 source).map (fun report =>
        (report.ending.faults, do
          let place ← report.raisedAt
          let node ← place.node? report.session.programs
          let use ← node.reference?
          return (use.name.lexeme, use.isAssignment, report.session.locals[use.id]?))) =
        some ([⟨.notDeclared "a", 1, .lexeme "a"⟩], some ("a", false, some 1)) := by
  intro host source
  decide +kernel

end LoxLang.Traced
