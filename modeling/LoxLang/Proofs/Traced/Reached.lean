import LoxLang.Proofs.Traced.Sessions
import LoxLang.Proofs.Traced.Soundness

/-!
The nesting of frames in all sessions.

Between two runs the frames are sound and the global frame is the active one (`Steady`).  Executing a
program keeps that, whether it ends, fails or has faults, and at every moment on the way the frames
mirror the place (`Steady.executed`).  Traced sessions and plain ones go on in pairs, so this holds of
every session that there may be (`mirrored_of_paired`).
-/

namespace LoxLang

namespace Traced

/-! ## More programs -/

/-- Further programs, with numbers that were not in use. -/
structure Ground.Extends (g g' : Ground) : Prop where
  programs : ∃ more, g'.programs = g.programs ++ more
  nextId : g.nextId ≤ g'.nextId
  locals : ∀ id < g.nextId, g'.locals[id]? = g.locals[id]?
  clean : g'.clean → g.clean

section

variable {g g' : Ground} {h : Heap}

theorem Noted.extends {findings : List Finding} (hn : Noted g findings) (he : g.Extends g') :
    Noted g' findings :=
  ⟨hn.recorded.mono he.nextId he.locals, fun hc => hn.faultless (he.clean hc)⟩

theorem SoundValue.extends {v : Value Kept} (hv : SoundValue g h v) (he : g.Extends g') :
    SoundValue g' h v := by
  cases v with
  | callable identity function =>
    cases hv with
    | native => exact .native
    | closure hn hf hm hu hnoted hp =>
      obtain ⟨more, hmore⟩ := he.programs
      have hlt := Place.program_lt hn
      refine .closure ?_ hf ?_ ?_ (hnoted.extends he) hp
      · rw [hmore]
        exact Place.node?_append hn more
      · rw [hmore, Place.enclosing_append hlt]
        exact hm
      · rw [hmore]
        exact hu.append hlt more
  | _ => trivial

theorem Sound.extends (hs : Sound g h) (he : g.Extends g') : Sound g' h :=
  ⟨hs.size, hs.outermost, fun f name v hr => (hs.values f name v hr).extends he⟩

end

/-! ## Between two runs -/

namespace Session

/-- What stays the same while a program is executed as the next one. -/
def groundWith (t : Session) (clean : Prop) (p : Program) : Ground :=
  ⟨t.programs ++ [p.statements], t.localsWith p, p.nextId, clean⟩

end Session

/-- Between two runs. -/
structure Steady (clean : Prop) (t : Session) : Prop where
  sound : Sound ⟨t.programs, t.locals, t.nextId, clean⟩ t.state.heap
  active : t.state.machine.active = Store.globalFrame
  unused : LoxLang.Session.Unused t.locals t.nextId

variable {clean : Prop} {t : Session} {s : LoxLang.Session} {reading : Nat → Except String Float}

theorem steady_start (clean : Prop) (reading : Nat → Except String Float) :
    Steady clean (.start reading) where
  sound := by
    let store : Store Kept := Store.initial
    have hempty : Sound ⟨[], {}, 0, clean⟩ ⟨store, fun _ => none⟩ := by
      refine ⟨Nat.one_pos, rfl, fun f name v hr => ?_⟩
      cases f with
      | zero => cases hr
      | succ f => cases hr
    exact hempty.define Store.globalFrame "clock" (v := .callable 0 (.native "clock" 0)) .native
  active := rfl
  unused := LoxLang.Session.unused_empty _

theorem Steady.skip (h : Steady clean t) {n : NodeId} (hn : t.nextId ≤ n) :
    Steady clean { t with nextId := n } where
  sound := h.sound.extends ⟨⟨[], (List.append_nil _).symm⟩, hn, fun _ _ => rfl, id⟩
  active := h.active
  unused := h.unused.mono hn

/-- A program is executed: at every moment the frames mirror the place, and afterwards it is as
before. -/
theorem Steady.executed (h : Steady clean t) (reading : Nat → Except String Float) (bound : Nat)
    {p : Program} (hnumbered : NumberedFrom t.nextId p) (hp : Stmt.ProperAll p.statements)
    (hclean : clean → resolutionFaults (findingsIn p.statements) = []) :
    (∀ v ∈ (t.execute reading bound p t.state).1, Mirrored (t.groundWith clean p) v) ∧
      ((t.execute reading bound p).outcome t.state).Meets (fun _ σ => Steady clean (t.left p σ))
        (fun e σ => Steady clean (t.left p σ) ∧ Excused (t.groundWith clean p) e) True := by
  obtain ⟨hrecorded, hold, hunused⟩ := extended_of_numbered h.unused hnumbered
  have hsound : Sound (t.groundWith clean p) t.state.heap :=
    h.sound.extends ⟨⟨_, rfl⟩, hnumbered.le, hold, id⟩
  have hnode : (Place.mk t.programs.length []).node? (t.groundWith clean p).programs =
      some (.program p.statements) := by
    show ((t.programs ++ [p.statements])[t.programs.length]?).bind _ = _
    rw [List.getElem?_concat_length]
    rfl
  have hhere : Here (t.groundWith clean p) ((Place.mk t.programs.length []).below 0) [] t.state := by
    refine ⟨?_, unready_nil _ _⟩
    rw [Place.enclosing_below hnode rfl, h.active]
    exact .globals hsound.size hsound.outermost
  obtain ⟨hvisits, hend⟩ :=
    keeps_executeProgram (t.groundWith clean p) reading bound hnode rfl hhere
    ⟨hrecorded, hclean⟩ hp hsound
  have hsteady : ∀ σ, Later (t.groundWith clean p) t.state σ → Steady clean (t.left p σ) :=
    fun σ hl => ⟨hl.sound, hl.active.trans h.active, hunused⟩
  exact ⟨hvisits, hend.mono (fun _ σ hb => hsteady σ hb.1) (fun e σ hb => ⟨hsteady σ hb.1, hb.2⟩) id⟩

end Traced

/-! ## Sessions in pairs -/

/-- The sessions that there may be.  Node numbers may be passed over, and whatever is read from tokens
may be executed, even with faults, to its end or up to a runtime fault. -/
inductive Session.Reachable (host : Host) : Session → Prop
  | start : Reachable host (.start host)
  | later {s n} : Reachable host s → s.nextId ≤ n → Reachable host { s with nextId := n }
  | executed {s bound p m} (tokens : List Token) : Reachable host s →
      p = Program.ofTokens tokens s.nextId →
      (Run.executeProgram ⟨host, s.locals.extend (findingsIn p.statements)⟩ bound p.statements
        s.machine).state? = some m →
      Reachable host (Traced.leftPlain s p m)

/-- What programs leave behind when they are run one after the other is one of these. -/
theorem Session.reachable_of_after {reading : Nat → Except String Float} {s t : Session}
    {inputs : List Input} (hs : s.Reachable (Host.timed reading))
    (h : s.after (Host.timed reading) inputs = some t) :
    t.Reachable (Host.timed reading) := by
  induction inputs generalizing s with
  | nil =>
    cases h
    exact hs
  | cons input inputs ih =>
    obtain ⟨bound, listed, source⟩ := input
    obtain ⟨report, hrun, hrest⟩ := after_cons h
    refine ih ?_ hrest
    by_cases hf : (analyse source s.nextId).faults = []
    · obtain ⟨listings, hconclude⟩ := Traced.run_accepted reading bound listed hf
      obtain ⟨m, hm, hsession, -⟩ := Traced.session_of_concludePlain (hconclude.symm.trans hrun)
      rw [hsession]
      exact hs.executed (Token.ofText source) rfl hm
    · obtain ⟨listings, hrejected⟩ := Traced.run_rejected reading bound listed hf
      cases hrejected.symm.trans hrun
      exact hs.later (nextId_le_analyse source s.nextId)

namespace Traced

/-- Traced sessions beside the plain ones, with the same programs executed in both. -/
inductive Paired (reading : Nat → Except String Float) : Session → LoxLang.Session → Prop
  | start : Paired reading (.start reading) (.start (Host.timed reading))
  | later {t s n} : Paired reading t s → s.nextId ≤ n →
      Paired reading { t with nextId := n } { s with nextId := n }
  | executed {t s bound p σ m} (tokens : List Token) : Paired reading t s →
      p = Program.ofTokens tokens s.nextId →
      ((t.execute reading bound p).outcome t.state).state? = some σ →
      (Run.executeProgram ⟨Host.timed reading, s.locals.extend (findingsIn p.statements)⟩ bound
        p.statements s.machine).state? = some m →
      Paired reading (t.left p σ) (leftPlain s p m)

variable {t : Session} {s : LoxLang.Session} {reading : Nat → Except String Float}

/-- What is the same in both sessions, and how the traced one is. -/
structure Level (clean : Prop) (t : Session) (s : LoxLang.Session) : Prop where
  nextId : t.nextId = s.nextId
  locals : t.locals = s.locals
  tracks : Tracks (fun _ => Eq) t s
  steady : Steady clean t

variable {clean : Prop}

theorem level_start (clean : Prop) (reading : Nat → Except String Float) :
    Level clean (.start reading) (.start (Host.timed reading)) :=
  ⟨rfl, rfl, tracks_start _ reading, steady_start clean reading⟩

theorem Level.later (h : Level clean t s) {n : NodeId} (hn : s.nextId ≤ n) :
    Level clean { t with nextId := n } { s with nextId := n } :=
  ⟨rfl, h.locals, h.tracks.skip (h.nextId ▸ hn) hn, h.steady.skip (h.nextId ▸ hn)⟩

theorem Level.numbered (h : Level clean t s) (tokens : List Token) :
    NumberedFrom t.nextId (Program.ofTokens tokens s.nextId) := by
  rw [h.nextId]
  exact numberedFrom_ofTokens tokens s.nextId

/-- What is read from the same tokens goes the same way in both sessions. -/
theorem Level.executed (h : Level clean t s) (reading : Nat → Except String Float) (bound : Nat)
    (tokens : List Token) :
    let p := Program.ofTokens tokens s.nextId
    ((t.execute reading bound p).outcome t.state).Matches
      (Run.executeProgram ⟨Host.timed reading, s.locals.extend (findingsIn p.statements)⟩ bound
        p.statements s.machine)
      (fun _ σ _ m => σ.machine.lines = m.lines ∧ Tracks (fun _ => Eq) (t.left p σ) (leftPlain s p m))
      fun e σ e' m => SameStop (fun _ => Eq) e e' ∧ σ.machine.lines = m.lines ∧
        Tracks (fun _ => Eq) (t.left p σ) (leftPlain s p m) :=
  h.tracks.executed reading bound same_token (h.numbered tokens)
    (numberedFrom_ofTokens tokens s.nextId) (Stmt.likeAll_of_unnumbered_eq (fun _ => rfl) rfl)

/-- The sessions behind an execution. -/
theorem Level.left (h : Level clean t s) {reading : Nat → Except String Float} {bound : Nat}
    {tokens : List Token} {p : Program} {σ : State} {m : Machine}
    (hp : p = Program.ofTokens tokens s.nextId)
    (hclean : clean → resolutionFaults (findingsIn p.statements) = [])
    (hσ : ((t.execute reading bound p).outcome t.state).state? = some σ)
    (hm : (Run.executeProgram ⟨Host.timed reading, s.locals.extend (findingsIn p.statements)⟩
      bound p.statements s.machine).state? = some m) :
    Level clean (t.left p σ) (leftPlain s p m) := by
  subst hp
  have htracks := (h.executed reading bound tokens).state?
    (R := fun σ m => Tracks (fun _ => Eq) (t.left (.ofTokens tokens s.nextId) σ)
      (leftPlain s (.ofTokens tokens s.nextId) m))
    (fun _ _ _ _ => And.right) fun _ _ _ _ h => h.2.2
  rw [hσ, hm] at htracks
  cases htracks with
  | some htracks =>
    refine ⟨rfl, congrArg (Locals.extend · _) h.locals, htracks, ?_⟩
    exact (h.steady.executed reading bound (h.numbered tokens)
      (Program.statements_proper tokens s.nextId) hclean).2.state? hσ (fun _ _ => id)
      fun _ _ => And.left

theorem Paired.level (h : Paired reading t s) : Level False t s := by
  induction h with
  | start => exact level_start False reading
  | later _ hn ih => exact ih.later hn
  | executed tokens _ hp hσ hm ih => exact ih.left hp False.elim hσ hm

/-- Every session has a traced one beside it. -/
theorem exists_paired (h : s.Reachable (Host.timed reading)) : ∃ t, Paired reading t s := by
  induction h with
  | start => exact ⟨_, .start⟩
  | later _ hn ih =>
    obtain ⟨t, ht⟩ := ih
    exact ⟨_, ht.later hn⟩
  | @executed s bound p m tokens _ hp hm ih =>
    obtain ⟨t, ht⟩ := ih
    subst hp
    have hstate := (ht.level.executed reading bound tokens).state? (R := fun _ _ => True)
      (fun _ _ _ _ _ => trivial) fun _ _ _ _ _ => trivial
    rw [hm] at hstate
    cases hσ : ((t.execute reading bound (.ofTokens tokens s.nextId)).outcome t.state).state? with
    | none =>
      rw [hσ] at hstate
      cases hstate
    | some σ => exact ⟨_, ht.executed tokens rfl hσ hm⟩

/-- In every session, whatever program is executed: every node is evaluated in a frame from which
the frames outward are one for each block and function around that node, in order, each made by that
very block or by a call of that very function, and then the global frame.  Distances are smaller than
the number of these blocks and functions, so there is a frame at each.

The moments are those of a run that goes as the plain one does. -/
theorem frames_mirror_nesting (reading : Nat → Except String Float) :
    (∀ s, LoxLang.Session.Reachable (Host.timed reading) s → ∃ t, Paired reading t s) ∧
      ∀ t s, Paired reading t s → ∀ (tokens : List Token) (bound : Nat),
        let p := Program.ofTokens tokens s.nextId
        let table := s.locals.extend (findingsIn p.statements)
        let programs := t.programs ++ [p.statements]
        ((t.execute reading bound p).outcome t.state).Matches
          (Run.executeProgram ⟨Host.timed reading, table⟩ bound p.statements s.machine)
          (fun _ σ _ m => σ.machine.lines = m.lines ∧
            Tracks (fun _ => Eq) (t.left p σ) (leftPlain s p m))
          (fun e σ e' m => SameStop (fun _ => Eq) e e' ∧ σ.machine.lines = m.lines ∧
            Tracks (fun _ => Eq) (t.left p σ) (leftPlain s p m)) ∧
        ∀ v ∈ (t.execute reading bound p t.state).1,
          v.place.node? programs = some v.node ∧
            Nested v.state.heap v.state.machine.active (v.place.enclosing programs) ∧
            ∀ use d, v.node.reference? = some use → table[use.id]? = some d →
              d < (v.place.enclosing programs).length ∧
                (v.state.machine.store.ancestor? v.state.machine.active d).isSome := by
  refine ⟨fun s => exists_paired, fun t s hpaired tokens bound => ?_⟩
  intro p table programs
  have hlevel := hpaired.level
  have htable : t.localsWith p = table := congrArg (Locals.extend · _) hlevel.locals
  refine ⟨hlevel.executed reading bound tokens, fun v hv => ?_⟩
  have hmirrored := (hlevel.steady.executed reading bound (hlevel.numbered tokens)
    (Program.statements_proper tokens s.nextId) False.elim).1 v hv
  exact ⟨hmirrored.node, hmirrored.nested, fun use d hu hd =>
    hmirrored.found use hu d ((congrArg (·[use.id]?) htable).trans hd)⟩

/-- A variable that is read in a block of a function, called in the block that declares both. -/
theorem frames_mirror_nesting_closure :
    let p := Program.ofTokens (Token.ofText "{ var a; fun f() { { return a; } } f(); }") 0
    let s := Session.start fun _ => .ok 0
    ∃ v ∈ (s.execute (fun _ => .ok 0) 20 p s.state).1,
      v.node.reference?.map (·.name.lexeme) = some "a" ∧
        (v.place.enclosing [p.statements]).length = 3 ∧
        Nested v.state.heap v.state.machine.active (v.place.enclosing [p.statements]) := by
  intro p s
  have hvisit : (s.execute (fun _ => .ok 0) 20 p s.state).1.any (fun v =>
        v.node.reference?.map (·.name.lexeme) = some "a" ∧
          (v.place.enclosing [p.statements]).length = 3) = true := by decide +kernel
  obtain ⟨v, hv, hfound⟩ := List.any_eq_true.1 hvisit
  obtain ⟨hname, hlength⟩ := of_decide_eq_true hfound
  have hmirrors := (frames_mirror_nesting fun _ => .ok 0).2 _ _ .start
    (Token.ofText "{ var a; fun f() { { return a; } } f(); }") 20
  exact ⟨v, hv, hname, hlength, (hmirrors.2 v hv).2.1⟩

end Traced

end LoxLang
