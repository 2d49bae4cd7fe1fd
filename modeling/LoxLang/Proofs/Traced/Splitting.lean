import LoxLang.Proofs.Session.Joining
import LoxLang.Proofs.Traced.Bounds
import LoxLang.Proofs.Traced.Reached

/-!
Two texts run one after the other, and both of them in one run.

Both read as the same statements, but for node numbers and the lines of the second one.  The traced
session runs the texts one after the other; the plain one has printed the lines of the first text when
it comes to the second one.  From there they go on together (`Tracks.split`), so they show the same
afterwards, but that tokens of the second text are further down (`run_joined`).
-/

namespace LoxLang

theorem Run.executeProgram_append {context : Context} {n : Nat} {xs ys : List Stmt} {m m' : Machine}
    (h : Run.executeProgram context n xs m = .ok () m') :
    Run.executeProgram context n (xs ++ ys) m = Run.executeProgram context n ys m' := by
  induction xs generalizing m with
  | nil =>
    cases h
    rfl
  | cons x xs ih =>
    rw [Run.executeProgram, Action.bind_apply] at h
    rw [List.cons_append, Run.executeProgram, Action.bind_apply]
    cases hx : Run.execute context n x m with
    | ok c m₁ =>
      rw [hx] at h
      exact ih h
    | error e m₁ =>
      rw [hx] at h
      cases h
    | exhausted =>
      rw [hx] at h
      cases h

namespace Traced

variable {r r' : Nat → Token → Token → Prop} {t : Session} {s : LoxLang.Session} {clean : Prop}

/-! ## Tokens of one program that are further down -/

/-- The same token, further down if it is one of program `b`. -/
def Lowered (b d k : Nat) (token token' : Token) : Prop :=
  token' = if k = b then token.lower d else token

theorem lowered_self (b d : Nat) (token : Token) : Lowered b d b token (token.lower d) :=
  (if_pos rfl).symm

theorem lowered_other {b k : Nat} (d : Nat) (h : k ≠ b) (token : Token) : Lowered b d k token token :=
  (if_neg h).symm

theorem Lowered.same {b d k : Nat} {token token' : Token} (h : Lowered b d k token token') :
    token.kind = token'.kind ∧ token.lexeme = token'.lexeme := by
  rw [Lowered] at h
  subst h
  split
  · exact ⟨rfl, rfl⟩
  · exact ⟨rfl, rfl⟩

/-! ## The programs that functions are from -/

theorem SoundValue.relate {g : Ground} {h : Heap} {q : NodeId → NodeId → Prop} {v : Value Kept}
    {v' : Value} (hs : SoundValue g h v) (hv : SameValue r q v v')
    (hr : ∀ k < g.programs.length, ∀ token token', r k token token' → r' k token token') :
    SameValue r' q v v' := by
  cases hv with
  | nil => exact .nil
  | bool b => exact .bool b
  | number x => exact .number x
  | string s => exact .string s
  | callable hc =>
    cases hc with
    | native => exact .callable .native
    | closure hps hb =>
      cases hs with
      | closure hn =>
        have hlt := Place.program_lt hn
        exact .callable (.closure (hps.imp (hr _ hlt)) (hb.mono (hr _ hlt) fun _ _ => id))

/-- It only matters which tokens correspond in programs that have been run. -/
theorem Tracks.relate (h : Tracks r t s) (hsteady : Steady clean t)
    (hr : ∀ k < t.programs.length, ∀ token token', r k token token' → r' k token token') :
    Tracks r' t s := by
  obtain ⟨⟨⟨hsize, henclosing, hread⟩, hactive, hdepth, hlines, hcallable, hcalls⟩, hu, hu'⟩ := h
  refine ⟨⟨⟨hsize, henclosing, fun f name => ?_⟩, hactive, hdepth, hlines, hcallable, hcalls⟩, hu,
    hu'⟩
  exact rel_imp (hread f name) fun v _ hv _ hsame =>
    (hsteady.sound.values f name v hv).relate hsame hr

/-! ## In two parts and at once -/

/-- Lines that the plain machine has printed are left behind. -/
theorem SameState.resume {q : NodeId → NodeId → Prop} {printed : Array String} {σ : State}
    {m : Machine} (h : SameState r q printed σ m) :
    SameState r q m.lines { σ with machine := { σ.machine with lines := #[] } } m :=
  ⟨h.store, h.active, h.depth, Array.append_empty.symm, h.nextCallable, h.nativeCalls⟩

section

variable (reading : Nat → Except String Float) (bound : Nat)

/-- A program that has been executed, and the next one, beside a program with the statements of
both. -/
theorem Tracks.split (h : Tracks r t s)
    (hr : ∀ k token token', r k token token' →
      token.kind = token'.kind ∧ token.lexeme = token'.lexeme)
    {p p' joint : Program} {ss ss' : List Stmt} {q q' : NodeId → NodeId → Prop} {σ : State}
    (hp : NumberedFrom t.nextId p) (hp' : NumberedFrom p.nextId p')
    (hjoint : NumberedFrom s.nextId joint) (hproper : Stmt.ProperAll joint.statements)
    (hparts : joint.statements = ss ++ ss')
    (hlike : Stmt.LikeAll (r t.programs.length) q p.statements ss)
    (hlike' : Stmt.LikeAll (r (t.programs.length + 1)) q' p'.statements ss')
    (hdone : (t.execute reading bound p).outcome t.state = .ok () σ) :
    (((t.left p σ).execute reading bound p').outcome (t.left p σ).state).Matches
      (Run.executeProgram ⟨Host.timed reading, s.locals.extend (findingsIn joint.statements)⟩ bound
        joint.statements s.machine)
      (fun _ τ _ m => σ.machine.lines ++ τ.machine.lines = m.lines ∧
        Tracks r ((t.left p σ).left p' τ) (leftPlain s joint m))
      fun e τ e' m => SameStop r e e' ∧ σ.machine.lines ++ τ.machine.lines = m.lines ∧
        Tracks r ((t.left p σ).left p' τ) (leftPlain s joint m) := by
  have hextended := extended_of_numbered h.unused' hjoint
  have hunused := (extended_of_numbered h.unused hp).unused
  have hunused' := (extended_of_numbered hunused hp').unused
  have hrecorded : Recorded (s.locals.extend (findingsIn joint.statements)) joint.nextId
      (findingsIn ss ++ findingsIn ss') := by
    rw [← findingsIn_append (hparts ▸ hproper), ← hparts]
    exact hextended.recorded
  have hstate := h.state.mono fun _ _ hij =>
    hij.mono (Nat.le_refl _) hjoint.le (fun _ _ => rfl) hextended.old
  have hfirst := matches_execute reading bound hr h.unused hstate hp hrecorded.left hlike
  rw [hdone] at hfirst
  obtain ⟨_, m, hplain, hmiddle⟩ := hfirst.ok
  have hlines : m.lines = σ.machine.lines := hmiddle.lines.trans (Array.empty_append)
  have hnext : (t.left p σ).programs.length = t.programs.length + 1 := List.length_append
  have hsecond := matches_execute reading bound hr hunused hmiddle.resume hp' hrecorded.right
    (hnext ▸ hlike')
  have hsame : ∀ {τ m'}, SameState r (SameDistance ((t.left p σ).localsWith p')
      (s.locals.extend (findingsIn joint.statements)) p'.nextId joint.nextId) m.lines τ m' →
      σ.machine.lines ++ τ.machine.lines = m'.lines ∧
        Tracks r ((t.left p σ).left p' τ) (leftPlain s joint m') := by
    intro τ m' hs
    exact ⟨hlines ▸ hs.lines.symm, hs.clearLines, hunused', hextended.unused⟩
  rw [(congrArg (Run.executeProgram _ bound · s.machine) hparts).trans
    (Run.executeProgram_append hplain)]
  exact hsecond.mono (fun _ _ _ _ => hsame) fun _ _ _ _ hbad => ⟨hbad.1, hsame hbad.2⟩

/-! ## Two texts -/

variable {first second : String} {n n' : NodeId}

/-- The run of the second text beside the run of both. -/
theorem Level.joined (h : Level clean t s) (listed : Listings) {report : Report}
    (hfirst : (LoxLang.Session.analyse first n).faults = [])
    (hsecond : (LoxLang.Session.analyse second n').faults = [])
    (hrun : t.run reading bound first = some report) (hdone : report.ending.status = .completed) :
    Option.Rel
      (Continued (Lowered (t.programs.length + 1) (1 + Text.newlines first.toList))
        report.ending.lines)
      (report.session.run reading bound second)
      (s.run (Host.timed reading) bound listed (first ++ "\n" ++ second)) := by
  have hf : (LoxLang.Session.analyse first t.nextId).faults = [] :=
    (LoxLang.Session.analyse_faults first _ n).trans hfirst
  rw [Session.run_accepted reading bound hf] at hrun
  obtain ⟨σ, hσ, rfl⟩ := completed_of_conclude hrun hdone
  have hf' : (LoxLang.Session.analyse second
      (t.left (LoxLang.Session.analyse first t.nextId).program σ).nextId).faults = [] :=
    (LoxLang.Session.analyse_faults second _ n').trans hsecond
  obtain ⟨hclean, ss, ss', hparts, hss, hss'⟩ :=
    LoxLang.Session.analyse_joined hf hf' s.nextId
  obtain ⟨listings, hjoint⟩ := run_accepted (s := s) reading bound listed hclean
  rw [Session.run_accepted reading bound hf', hjoint]
  have hbefore : ∀ k < t.programs.length, ∀ token token', token = token' →
      Lowered (t.programs.length + 1) (1 + Text.newlines first.toList) k token token' := by
    rintro k hk token _ rfl
    exact lowered_other _ (by omega) token
  have htracks := h.tracks.relate h.steady hbefore
  refine conclude_continued _ (htracks.split reading bound (fun _ _ _ => Lowered.same)
    (numberedFrom_analyse first t.nextId) (numberedFrom_analyse second _)
    (numberedFrom_analyse _ s.nextId) (LoxLang.Session.analyse_proper _ s.nextId) hparts
    (Stmt.likeAll_of_unnumbered_eq (fun token => lowered_other _ (by omega) token) hss.symm)
    ((Stmt.likeAll_of_relabel_eq _ _ hss'.symm).mono ?_ fun _ _ => id) hσ) listings
  rintro token _ rfl
  exact lowered_self _ _ token

end

/-- A run beside another one, in which some lines have been printed before and the tokens of program
`b` are `d` lines further down: apart from this, they show the same, and so do all inputs after
them. -/
structure Together (reading : Nat → Except String Float) (b d : Nat) (before : List String)
    (report : Report) (joint : LoxLang.Session.Report) : Prop where
  status : report.ending.status = joint.status
  lines : before ++ report.ending.lines = joint.lines
  faults : SameFaults (Lowered b d) report.raisedAt report.ending.faults joint.faults
  later : ∀ inputs, List.Forall₂ (Option.Rel (SameEnding (Lowered b d)))
    (report.session.endings reading inputs) (joint.session.endings (Host.timed reading) inputs)

/-- In every session, two texts that have no faults have none with a newline between them.  If the
first one completes, then the run of the second one after it ends with the same status as the run of
both at once, and with the same runtime fault, if any; both print the same lines in total, and later
inputs show the same.  Only the lines of tokens of the second text are different: below the first text
they are further down, by one and the newlines in it.

The second text is the program behind those of the session and the first one.  The session tells
where faults are raised, and shows the same as the plain session. -/
theorem run_joined (reading : Nat → Except String Float) :
    (∀ s, LoxLang.Session.Reachable (Host.timed reading) s → ∃ t, Paired reading t s) ∧
      ∀ t s, Paired reading t s →
        (∀ inputs, s.endings (Host.timed reading) inputs =
          (t.endings reading inputs).map (·.map Prod.fst)) ∧
        ∀ (first second : String) (n n' : NodeId),
          (LoxLang.Session.analyse first n).faults = [] →
          (LoxLang.Session.analyse second n').faults = [] →
          let joined := first ++ "\n" ++ second
          let b := t.programs.length + 1
          (∀ m, (LoxLang.Session.analyse joined m).faults = []) ∧
            ∀ (enough : Nat) (report : Report), t.run reading enough first = some report →
              report.ending.status = .completed →
              ∀ (bound : Nat) (listed : Listings), enough ≤ bound →
                t.run reading bound first = some report ∧
                Option.Rel
                  (fun report' joint =>
                    report'.session.programs[b]? = some (LoxLang.Session.analyse second
                      report.session.nextId).program.statements ∧
                    Together reading b (1 + Text.newlines first.toList) report.ending.lines
                      report' joint)
                  (report.session.run reading bound second)
                  (s.run (Host.timed reading) bound listed joined) := by
  refine ⟨fun s => exists_paired, fun t s hpaired => ?_⟩
  have hlevel := hpaired.level
  refine ⟨hlevel.tracks.plain_endings reading, ?_⟩
  intro first second n n' hfirst hsecond joined b
  refine ⟨fun m => (LoxLang.Session.analyse_joined hfirst hsecond m).1, ?_⟩
  intro enough report hrun hdone bound listed hle
  have hagain := Session.run_mono reading hle hrun
  refine ⟨hagain, ?_⟩
  have hprograms := Session.programs_of_run reading bound
    ((LoxLang.Session.analyse_faults first _ n).trans hfirst) hagain
  have hjoined := hlevel.joined reading bound listed hfirst hsecond hagain hdone
  refine rel_imp hjoined fun report' joint hnext _ hcontinued => ?_
  have hprograms' := Session.programs_of_run reading bound
    ((LoxLang.Session.analyse_faults second _ n').trans hsecond) hnext
  rw [hprograms, List.append_assoc] at hprograms'
  have hlength : report'.session.programs.length = t.programs.length + 2 := by
    rw [hprograms', List.length_append]
    rfl
  refine ⟨?_, hcontinued.status, hcontinued.lines, hcontinued.faults, ?_⟩
  · rw [hprograms', List.getElem?_append_right (by omega)]
    simp [b]
  · refine hcontinued.session.endings reading (fun _ _ _ => Lowered.same) fun k token hk => ?_
    exact lowered_other _ (by omega) token

/-- A function of the first text, called in the second one, gives back a clock that cannot be read;
that is on line 2 of the second text, and on line 6 of both. -/
theorem run_joined_call :
    let reading : Nat → Except String Float := fun _ => .error "clock went backwards"
    let first := "fun f(x) \x7b\n  return x;\n\x7d\nprint f;"
    let second := "print f(true);\nprint f(clock)();"
    ∃ report report' joint,
      Session.run reading 20 (.start reading) first = some report ∧
        report.session.run reading 20 second = some report' ∧
        (LoxLang.Session.start (Host.timed reading)).run (Host.timed reading) 20 {}
          (first ++ "\n" ++ second) = some joint ∧
        joint.faults.map (·.line) = [6] ∧
        Together reading 1 4 report.ending.lines report' joint := by
  intro reading first second
  have hcompleted : (Session.run reading 20 (.start reading) first).map (·.ending.status) =
      some .completed := by decide +kernel
  have hjoint : ((LoxLang.Session.start (Host.timed reading)).run (Host.timed reading) 20 {}
      (first ++ "\n" ++ second)).map (·.faults.map (·.line)) = some [6] := by decide +kernel
  obtain ⟨report, hrun, hdone⟩ := Option.map_eq_some_iff.1 hcompleted
  obtain ⟨joint, hrun', hline⟩ := Option.map_eq_some_iff.1 hjoint
  have hjoined := ((run_joined reading).2 _ _ .start).2 first second 0 0 (by decide +kernel)
    (by decide +kernel)
  have hrel := (hjoined.2 20 report hrun hdone 20 {} (Nat.le_refl 20)).2
  cases hnext : report.session.run reading 20 second with
  | none =>
    rw [hnext] at hrel
    cases hrun'.symm.trans (rel_none hrel)
  | some report' =>
    rw [hnext] at hrel
    obtain ⟨joint', hjoint', -, htogether⟩ := rel_some hrel
    cases hrun'.symm.trans hjoint'
    have hnewlines : Text.newlines first.toList = 3 := by decide +kernel
    rw [hnewlines] at htogether
    exact ⟨report, report', joint, hrun, hnext, hrun', hline, htogether⟩

end Traced

end LoxLang
