import LoxLang.Proofs.Lexical.Simulation
import LoxLang.Proofs.Scope.Accepted

/-!
Sessions with frames and distances, and sessions with cells.

Between two runs the machines of both sessions are related at the global frame, for the distances of
all programs so far.  An accepted program adds distances for numbers that were not in use, so what
earlier runs left stays related; the run then simulates the other one.  Hence every list of programs
shows the same endings in both (`endings_eq`): resolved distances and shared frames give lexical
scoping.
-/

namespace LoxLang.Lexical

/-- The sessions are at the same point. -/
structure SameSession (s : LoxLang.Session) (t : Session) : Prop where
  machine : ∃ w, Related s.locals s.nextId w Store.globalFrame s.machine t.machine
  nextId : s.nextId = t.nextId
  unused : Session.Unused s.locals s.nextId

/-! ## The beginning -/

/-- The world of a new session: the global frame only, and no cells. -/
def World.start : World := ⟨1, fun _ => none, fun _ _ => none⟩

theorem related_start (table : Locals) (bound : NodeId) (reading : Nat → Except String Float) :
    Related table bound World.start Store.globalFrame (.start (Host.timed reading))
      Machine.start := by
  let store : Store := Store.initial.define Store.globalFrame "clock"
    (.callable 0 (.native "clock" 0))
  have hstart : LoxLang.Machine.start (Host.timed reading) =
      ⟨store, Store.globalFrame, 0, #[], 1, 0⟩ := rfl
  have hsize : store.frames.size = 1 := Store.size_define _ _ _ _
  have hread : ∀ name, store.read? Store.globalFrame name =
      if name = "clock" then some (.callable 0 (.native "clock" 0)) else none :=
    fun name => Frame.get?_set {} "clock" name (.callable 0 (.native "clock" 0))
  rw [hstart]
  refine ⟨⟨hsize, ?_, ⟨Nat.one_pos, rfl, fun _ => rfl⟩, ?_, ?_, ?_, ?_, ?_⟩, rfl, rfl, rfl, rfl, rfl⟩
  · intro f
    cases f with
    | zero => rfl
    | succ f => rfl
  · intro f name c hc
    cases hc
  · intro f g name other c hc
    cases hc
  · intro f name c hc
    cases hc
  · intro f name hf _
    refine Store.read?_eq_none_of_le ?_ name
    rw [hsize]
    exact Nat.pos_of_ne_zero hf
  · intro name
    rw [hread]
    by_cases hname : name = "clock"
    · rw [if_pos hname, hname]
      exact .some (.callable .native)
    · have hlookup : Machine.start.globals.lookup name = none := by
        show List.lookup name [("clock", _)] = none
        rw [List.lookup_cons, beq_eq_false_iff_ne.2 hname]
        rfl
      rw [if_neg hname, hlookup]
      exact .none

theorem sameSession_start (reading : Nat → Except String Float) :
    SameSession (.start (Host.timed reading)) Session.start :=
  ⟨⟨World.start, related_start _ _ reading⟩, rfl, Session.unused_empty 0⟩

/-! ## Runs -/

theorem Related.mono {table table' : Locals} {bound bound' : NodeId} {w : World} {f : FrameId}
    {m : LoxLang.Machine} {r : Machine} (h : Related table bound w f m r) (hbound : bound ≤ bound')
    (htable : ∀ id < bound, table'[id]? = table[id]?) : Related table' bound' w f m r :=
  ⟨⟨h.store.size, h.store.outer, h.store.outermost, h.store.range, h.store.injective,
    fun hc => rel_mono (h.store.cell hc) fun _ _ hv => hv.mono hbound htable, h.store.undeclared,
    fun name => rel_mono (h.store.global name) fun _ _ hv => hv.mono hbound htable⟩,
    h.active, h.depth, h.lines, h.nextCallable, h.nativeCalls⟩

/-- The machines as the next run finds them. -/
theorem Related.clearLines {table : Locals} {bound : NodeId} {w : World} {f : FrameId}
    {m : LoxLang.Machine} {r : Machine} (h : Related table bound w f m r) :
    Related table bound w f { m with lines := #[] } { r with lines := #[] } :=
  ⟨h.store, h.active, h.depth, rfl, h.nextCallable, h.nativeCalls⟩

/-- One run: both end within the bound or neither does, and they show the same. -/
theorem SameSession.run {s : LoxLang.Session} {t : Session} (h : SameSession s t)
    (reading : Nat → Except String Float) (bound : Nat) (listed : Listings) (source : String) :
    Option.Rel (fun report after => report.ending = after.1 ∧ SameSession report.session after.2)
      (s.run (Host.timed reading) bound listed source) (t.run reading bound source) := by
  obtain ⟨⟨w, hw⟩, hnext, hunused⟩ := h
  have hle := Session.nextId_le_analyse source s.nextId
  have haccepted := Session.accepted source hunused
  rw [LoxLang.Session.run, Session.run, ← hnext]
  revert hle haccepted
  generalize Session.analyse source s.nextId = a
  intro hle haccepted
  cases hfaults : a.faults with
  | cons d ds =>
    have hsession : SameSession ⟨s.machine, s.locals, a.program.nextId⟩
        ⟨t.machine, a.program.nextId⟩ :=
      ⟨⟨w, hw.mono hle fun _ _ => rfl⟩, rfl, hunused.mono hle⟩
    simp only [List.isEmpty_cons, Bool.not_false, if_true]
    exact .some ⟨rfl, hsession⟩
  | nil =>
    obtain ⟨hproper, hsettled, hold, hlater⟩ := haccepted hfaults
    have hsim := simulates_executeProgram reading bound hsettled hproper
      s.machine t.machine (hw.mono hle hold)
    simp only [List.isEmpty_nil, Bool.not_true, Bool.false_eq_true, if_false]
    revert hsim
    generalize Run.executeProgram _ bound _ s.machine = x
    generalize executeProgram reading bound _ t.machine = y
    intro hsim
    have hended : ∀ {w' m r},
        Related (s.locals.extend a.findings) a.program.nextId w' Store.globalFrame m r →
        SameSession
          ⟨{ m with lines := #[] }, s.locals.extend a.findings, a.program.nextId⟩
          ⟨{ r with lines := #[] }, a.program.nextId⟩ :=
      fun hr => ⟨⟨_, hr.clearLines⟩, rfl, hlater⟩
    rcases hsim.alike with
      ⟨_, m, _, r, rfl, rfl, w', -, hr, -⟩ | ⟨e, m, r, rfl, rfl, w', -, hr⟩ | ⟨rfl, rfl⟩
    · have hlines : m.lines.toList = r.lines.toList := congrArg Array.toList hr.lines
      exact .some ⟨congrArg (Ending.mk .completed []) hlines, hended hr⟩
    · cases e with
      | fault d =>
        have hlines : m.lines.toList = r.lines.toList := congrArg Array.toList hr.lines
        exact .some ⟨congrArg (Ending.mk .runtimeError [d]) hlines, hended hr⟩
      | malformed operator => exact .none
    · exact .none

/-- Every list of programs shows the same endings in both sessions. -/
theorem SameSession.endings {s : LoxLang.Session} {t : Session} (h : SameSession s t)
    (reading : Nat → Except String Float) (inputs : List (Nat × Listings × String)) :
    s.endings (Host.timed reading) inputs =
      t.endings reading (inputs.map fun input => (input.1, input.2.2)) := by
  induction inputs generalizing s t with
  | nil => rfl
  | cons input rest ih =>
    obtain ⟨bound, listed, source⟩ := input
    have hrun := h.run reading bound listed source
    rw [LoxLang.Session.endings, List.map_cons, Session.endings]
    revert hrun
    generalize s.run (Host.timed reading) bound listed source = x
    generalize t.run reading bound source = y
    intro hrun
    cases hrun with
    | none => rfl
    | @some report next hsame =>
      obtain ⟨ending, after⟩ := next
      obtain ⟨rfl, hsession⟩ := hsame
      exact congrArg _ (ih hsession)

/-- Programs run one after the other in a session show what they show under lexical scoping: the
same status, the same printed lines and the same faults. -/
theorem endings_eq (reading : Nat → Except String Float) (inputs : List (Nat × Listings × String)) :
    (LoxLang.Session.start (Host.timed reading)).endings (Host.timed reading) inputs =
      Session.start.endings reading (inputs.map fun input => (input.1, input.2.2)) :=
  (sameSession_start reading).endings reading inputs

/-- A clock that cannot be read is a fault of the call, at its closing parenthesis. -/
example : (Session.start.endings (fun _ => .error "clock went backwards")
    [(20, "print nil;\nclock(\n);")]).map (·.map fun e => (e.status, e.faults, e.lines)) =
      [some (.runtimeError, [⟨.nativeFailure "clock went backwards", 3, .lexeme ")"⟩],
        ["nil"])] := by
  decide +kernel

end LoxLang.Lexical
