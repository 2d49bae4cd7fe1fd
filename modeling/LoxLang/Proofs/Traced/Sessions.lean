import LoxLang.Proofs.Session.Analysis
import LoxLang.Proofs.Session.Inputs
import LoxLang.Proofs.Scope.Accepted
import LoxLang.Proofs.Traced.Simulation

/-!
Sessions that tell where they are.

A traced session keeps the programs that have been run, so that places can be looked up in them, and
reports with a runtime fault the place where it was raised.  `Tracks` relates it to a plain session:
their machines correspond, and node numbers correspond if they have the same distance.  Running
programs that are alike in both keeps this (`Tracks.executed`), and so do programs that are read and
rejected on either side (`Tracks.skip`).
-/

namespace LoxLang.Traced

structure Session where
  state : State
  locals : Locals
  nextId : NodeId
  /-- The programs that have been run, in order. -/
  programs : List (List Stmt)

/-- What came of a run. -/
structure Report where
  ending : Lexical.Ending
  /-- Where the runtime fault was raised, if there is one. -/
  raisedAt : Option Place
  session : Session

namespace Session

variable (reading : Nat → Except String Float)

def start : Session := ⟨⟨.start (Host.timed reading), fun _ => none⟩, {}, 0, []⟩

/-- The table with the references of a program. -/
def localsWith (t : Session) (p : Program) : Locals := t.locals.extend (findingsIn p.statements)

/-- Executes a program as the next one. -/
def execute (bound : Nat) (t : Session) (p : Program) : Traced Unit :=
  executeProgram reading (t.localsWith p) bound ⟨t.programs.length, []⟩ 0 p.statements

/-- The session that is left when a program has been executed. -/
def left (t : Session) (p : Program) (s : State) : Session where
  state := { s with machine := { s.machine with lines := #[] } }
  locals := t.localsWith p
  nextId := p.nextId
  programs := t.programs ++ [p.statements]

/-- The session that is left when a program has been read and not executed. -/
def skip (t : Session) (p : Program) : Session := { t with nextId := p.nextId }

/-- The report of an execution, from what it comes to. -/
def conclude (t : Session) (p : Program) : Outcome Raised State Unit → Option Report
  | .ok () s => some ⟨⟨.completed, [], s.machine.lines.toList⟩, none, t.left p s⟩
  | .error ⟨.fault d, q⟩ s =>
    some ⟨⟨.runtimeError, [d], s.machine.lines.toList⟩, some q, t.left p s⟩
  | .error ⟨.malformed _, _⟩ _ => none
  | .exhausted => none

/-- Runs a program text, unless the analysis rejects it. -/
def run (bound : Nat) (t : Session) (source : String) : Option Report :=
  let a := LoxLang.Session.analyse source t.nextId
  if !a.faults.isEmpty then
    some ⟨⟨.staticError, a.faults, []⟩, none, t.skip a.program⟩
  else
    t.conclude a.program ((t.execute reading bound a.program).outcome t.state)

/-- What shows of runs one after the other, and where their faults were raised, up to the first that
does not end within its bound. -/
def endings (t : Session) :
    List LoxLang.Session.Input → List (Option (Lexical.Ending × Option Place))
  | [] => []
  | (bound, _, source) :: rest =>
    match t.run reading bound source with
    | none => [none]
    | some report => some (report.ending, report.raisedAt) :: report.session.endings rest

/-- The session after some inputs, if each of them ends within its bound. -/
def after (t : Session) : List LoxLang.Session.Input → Option Session
  | [] => some t
  | (bound, _, source) :: rest =>
    (t.run reading bound source).bind fun report => report.session.after rest

end Session

/-! ## Sessions that correspond -/

section

variable (r : Nat → Token → Token → Prop)

/-- The plain session is at the same point, up to labels. -/
structure Tracks (t : Session) (s : LoxLang.Session) : Prop where
  state : SameState r (SameDistance t.locals s.locals t.nextId s.nextId) #[] t.state s.machine
  unused : LoxLang.Session.Unused t.locals t.nextId
  unused' : LoxLang.Session.Unused s.locals s.nextId

/-- The same faults; one that was raised in a run, at tokens that correspond there. -/
inductive SameFaults : Option Place → List Diagnostic → List Diagnostic → Prop
  | found {faults} : SameFaults none faults faults
  | raised {place cause t t'} : r place.program t t' →
      SameFaults (some place) [.atToken cause t] [.atToken cause t']

/-- Endings with the same status, the same lines and the same faults. -/
structure SameEnding (e : Lexical.Ending × Option Place) (e' : Lexical.Ending) : Prop where
  status : e.1.status = e'.status
  lines : e.1.lines = e'.lines
  faults : SameFaults r e.2 e.1.faults e'.faults

end

variable {r : Nat → Token → Token → Prop} {t : Session} {s : LoxLang.Session}

theorem sameState_start (q : NodeId → NodeId → Prop) (reading : Nat → Except String Float) :
    SameState r q #[] (Session.start reading).state (.start (Host.timed reading)) := by
  have hempty : SameStore r q (Store.initial : Store Kept) (Store.initial : Store) := by
    refine ⟨rfl, fun f => ?_, fun f name => ?_⟩
    · cases f <;> rfl
    · cases f <;> exact .none
  exact ⟨hempty.define _ "clock" (.callable .native), rfl, rfl, rfl, rfl, rfl⟩

theorem tracks_start (r : Nat → Token → Token → Prop) (reading : Nat → Except String Float) :
    Tracks r (.start reading) (.start (Host.timed reading)) :=
  ⟨sameState_start _ reading, LoxLang.Session.unused_empty _, LoxLang.Session.unused_empty _⟩

/-- Node numbers that are passed over change nothing. -/
theorem Tracks.skip (h : Tracks r t s) {n n' : NodeId} (hn : t.nextId ≤ n) (hn' : s.nextId ≤ n') :
    Tracks r { t with nextId := n } { s with nextId := n' } where
  state := h.state.mono fun _ _ hij => hij.mono hn hn' (fun _ _ => rfl) fun _ _ => rfl
  unused := h.unused.mono hn
  unused' := h.unused'.mono hn'

/-! ## Programs that are alike -/

/-- A program whose nodes are numbered from `low` on, each with a number of its own. -/
structure NumberedFrom (low : NodeId) (p : Program) : Prop where
  le : low ≤ p.nextId
  nodup : (Stmt.idsAll p.statements).Nodup
  range : ∀ id ∈ Stmt.idsAll p.statements, low ≤ id ∧ id < p.nextId

theorem numberedFrom_ofTokens (tokens : List Token) (nextId : NodeId) :
    NumberedFrom nextId (Program.ofTokens tokens nextId) :=
  let ⟨hle, hnodup, hrange⟩ := Program.statements_numbered tokens nextId
  ⟨hle, hnodup, hrange⟩

theorem numberedFrom_analyse (source : String) (n : NodeId) :
    NumberedFrom n (LoxLang.Session.analyse source n).program :=
  numberedFrom_ofTokens (Token.ofText source) n

/-- What holds of the table with a program whose numbers are new. -/
structure Extended (table extended : Locals) (low : NodeId) (p : Program) : Prop where
  recorded : Recorded extended p.nextId (findingsIn p.statements)
  old : ∀ id < low, extended[id]? = table[id]?
  unused : LoxLang.Session.Unused extended p.nextId

theorem extended_of_numbered {table : Locals} {low : NodeId} {p : Program}
    (h : LoxLang.Session.Unused table low) (hp : NumberedFrom low p) :
    Extended table (table.extend (findingsIn p.statements)) low p :=
  let ⟨hrecorded, hold, hnew⟩ := recorded_extend h hp.nodup hp.range
  ⟨hrecorded, hold, fun id hid => hnew id hid (Nat.le_trans hp.le hid)⟩

/-- The plain session that is left when a program has been executed. -/
def leftPlain (s : LoxLang.Session) (p : Program) (m : Machine) : LoxLang.Session :=
  ⟨{ m with lines := #[] }, s.locals.extend (findingsIn p.statements), p.nextId⟩

theorem SameState.clearLines {q : NodeId → NodeId → Prop} {printed : Array String} {s : State}
    {m : Machine} (h : SameState r q printed s m) :
    SameState r q #[] { s with machine := { s.machine with lines := #[] } } { m with lines := #[] } :=
  ⟨h.store, h.active, h.depth, rfl, h.nextCallable, h.nativeCalls⟩

section

variable (reading : Nat → Except String Float) (bound : Nat) {p p' : Program}
  {q : NodeId → NodeId → Prop} (hr : ∀ k t t', r k t t' → t.kind = t'.kind ∧ t.lexeme = t'.lexeme)

include hr

/-- A program, executed as the next one, beside statements that are alike. -/
theorem matches_execute {table : Locals} {high : NodeId} {printed : Array String} {m : Machine}
    {ss : List Stmt} (hunused : LoxLang.Session.Unused t.locals t.nextId)
    (hstate : SameState r (SameDistance t.locals table t.nextId high) printed t.state m)
    (hp : NumberedFrom t.nextId p) (hrecorded : Recorded table high (findingsIn ss))
    (hlike : Stmt.LikeAll (r t.programs.length) q p.statements ss) :
    ((t.execute reading bound p).outcome t.state).Matches
      (Run.executeProgram ⟨Host.timed reading, table⟩ bound ss m)
      (fun _ σ _ m => SameState r (SameDistance (t.localsWith p) table p.nextId high) printed σ m)
      fun e σ e' m => SameStop r e e' ∧
        SameState r (SameDistance (t.localsWith p) table p.nextId high) printed σ m := by
  have hextended := extended_of_numbered hunused hp
  have hsettled := (hlike.settle (fun _ _ ht => (hr _ _ _ ht).2) false [] hextended.recorded
    hrecorded).1
  have hlater := hstate.mono fun _ _ hij =>
    hij.mono hp.le (Nat.le_refl high) hextended.old fun _ _ => rfl
  exact (follows_executeProgram hr (fun _ _ hij => hij.2.2) printed reading bound hsettled 0 _ _
    hlater).mono (fun _ _ _ _ => And.left) fun _ _ _ _ => id

/-- Programs that are alike, executed in sessions that correspond. -/
theorem Tracks.executed (h : Tracks r t s) (hp : NumberedFrom t.nextId p)
    (hp' : NumberedFrom s.nextId p')
    (hlike : Stmt.LikeAll (r t.programs.length) q p.statements p'.statements) :
    ((t.execute reading bound p).outcome t.state).Matches
      (Run.executeProgram ⟨Host.timed reading, s.locals.extend (findingsIn p'.statements)⟩ bound
        p'.statements s.machine)
      (fun _ σ _ m => σ.machine.lines = m.lines ∧ Tracks r (t.left p σ) (leftPlain s p' m))
      fun e σ e' m => SameStop r e e' ∧ σ.machine.lines = m.lines ∧
        Tracks r (t.left p σ) (leftPlain s p' m) := by
  have hunused := (extended_of_numbered h.unused hp).unused
  have hextended := extended_of_numbered h.unused' hp'
  have hstate := h.state.mono fun _ _ hij =>
    hij.mono (Nat.le_refl _) hp'.le (fun _ _ => rfl) hextended.old
  have hsame : ∀ {σ m}, SameState r
      (SameDistance (t.localsWith p) (s.locals.extend (findingsIn p'.statements)) p.nextId p'.nextId)
      #[] σ m → σ.machine.lines = m.lines ∧ Tracks r (t.left p σ) (leftPlain s p' m) := by
    intro σ m hs
    refine ⟨?_, hs.clearLines, hunused, hextended.unused⟩
    rw [hs.lines, Array.empty_append]
  exact (matches_execute reading bound hr h.unused hstate hp hextended.recorded hlike).mono
    (fun _ _ _ _ => hsame) fun _ _ _ _ hbad => ⟨hbad.1, hsame hbad.2⟩

end

/-! ## Runs -/

/-- Reports that show the same, and leave sessions that correspond. -/
structure SameReport (r : Nat → Token → Token → Prop) (report : Report)
    (plain : LoxLang.Session.Report) : Prop where
  ending : SameEnding r (report.ending, report.raisedAt) plain.ending
  session : Tracks r report.session plain.session

/-- Reports that show the same, but that the plain session had printed some lines before. -/
structure Continued (r : Nat → Token → Token → Prop) (before : List String) (report : Report)
    (plain : LoxLang.Session.Report) : Prop where
  status : report.ending.status = plain.status
  lines : before ++ report.ending.lines = plain.lines
  faults : SameFaults r report.raisedAt report.ending.faults plain.faults
  session : Tracks r report.session plain.session

/-- The report of a plain execution, from what it comes to. -/
def concludePlain (s : LoxLang.Session) (p : Program) (listings : String) :
    Outcome Stop Machine Unit → Option LoxLang.Session.Report
  | .ok () m => some ⟨.completed, [], listings, m.lines.toList, leftPlain s p m⟩
  | .error (.fault d) m => some ⟨.runtimeError, [d], listings, m.lines.toList, leftPlain s p m⟩
  | .error (.malformed _) _ => none
  | .exhausted => none

section

variable {p p' : Program}

/-- Executions that match have the same reports, but for the lines that the plain machine had printed
before. -/
theorem conclude_continued (before : Array String) {o : Outcome Raised State Unit}
    {o' : Outcome Stop Machine Unit}
    (h : o.Matches o'
      (fun _ σ _ m => before ++ σ.machine.lines = m.lines ∧ Tracks r (t.left p σ) (leftPlain s p' m))
      fun e σ e' m => SameStop r e e' ∧ before ++ σ.machine.lines = m.lines ∧
        Tracks r (t.left p σ) (leftPlain s p' m)) (listings : String) :
    Option.Rel (Continued r before.toList) (t.conclude p o) (concludePlain s p' listings o') := by
  rcases h.alike with ⟨_, σ, _, m, rfl, rfl, hlines, htracks⟩ |
    ⟨_, σ, _, m, rfl, rfl, hstop, hlines, htracks⟩ | ⟨rfl, rfl⟩
  · exact .some ⟨rfl, Array.toList_append ▸ congrArg Array.toList hlines, .found, htracks⟩
  · cases hstop with
    | fault ht =>
      exact .some ⟨rfl, Array.toList_append ▸ congrArg Array.toList hlines, .raised ht, htracks⟩
    | malformed ht => exact .none
  · exact .none

theorem conclude_rel {o : Outcome Raised State Unit} {o' : Outcome Stop Machine Unit}
    (h : o.Matches o' (fun _ σ _ m => σ.machine.lines = m.lines ∧ Tracks r (t.left p σ) (leftPlain s p' m))
      fun e σ e' m => SameStop r e e' ∧ σ.machine.lines = m.lines ∧
        Tracks r (t.left p σ) (leftPlain s p' m)) (listings : String) :
    Option.Rel (SameReport r) (t.conclude p o) (concludePlain s p' listings o') := by
  refine rel_mono (conclude_continued #[] ?_ listings) fun _ _ h =>
    ⟨⟨h.status, h.lines, h.faults⟩, h.session⟩
  simp only [Array.empty_append]
  exact h

end

theorem session_of_conclude {p : Program} {o : Outcome Raised State Unit} {report : Report}
    (h : t.conclude p o = some report) : ∃ σ, o.state? = some σ ∧ report.session = t.left p σ := by
  unfold Session.conclude at h
  split at h
  · cases h
    exact ⟨_, rfl, rfl⟩
  · cases h
    exact ⟨_, rfl, rfl⟩
  · cases h
  · cases h

theorem completed_of_conclude {p : Program} {o : Outcome Raised State Unit} {report : Report}
    (h : t.conclude p o = some report) (hdone : report.ending.status = .completed) :
    ∃ σ, o = .ok () σ ∧ report = ⟨⟨.completed, [], σ.machine.lines.toList⟩, none, t.left p σ⟩ := by
  unfold Session.conclude at h
  split at h
  · cases h
    exact ⟨_, rfl, rfl⟩
  · cases h
    cases hdone
  · cases h
  · cases h

theorem session_of_concludePlain {p : Program} {listings : String}
    {o : Outcome Stop Machine Unit} {report : LoxLang.Session.Report}
    (h : concludePlain s p listings o = some report) :
    ∃ m, o.state? = some m ∧ report.session = leftPlain s p m ∧ report.status ≠ .staticError := by
  unfold concludePlain at h
  split at h
  · cases h
    exact ⟨_, rfl, rfl, Status.noConfusion⟩
  · cases h
    exact ⟨_, rfl, rfl, Status.noConfusion⟩
  · cases h
  · cases h

section

variable (reading : Nat → Except String Float) (bound : Nat) (listed : Listings)
  {source source' : String}

theorem Session.run_rejected (h : (LoxLang.Session.analyse source t.nextId).faults ≠ []) :
    t.run reading bound source =
      some ⟨⟨.staticError, (LoxLang.Session.analyse source t.nextId).faults, []⟩, none,
        t.skip (LoxLang.Session.analyse source t.nextId).program⟩ := by
  rw [run, if_pos (by simpa using h)]

theorem Session.run_accepted (h : (LoxLang.Session.analyse source t.nextId).faults = []) :
    t.run reading bound source =
      t.conclude (LoxLang.Session.analyse source t.nextId).program
        ((t.execute reading bound (LoxLang.Session.analyse source t.nextId).program).outcome
          t.state) := by
  rw [run, if_neg (by simp [h])]

theorem run_rejected (h : (LoxLang.Session.analyse source s.nextId).faults ≠ []) :
    ∃ listings, s.run (Host.timed reading) bound listed source =
      some ⟨.staticError, (LoxLang.Session.analyse source s.nextId).faults, listings, [],
        { s with nextId := (LoxLang.Session.analyse source s.nextId).program.nextId }⟩ := by
  rw [LoxLang.Session.run, if_pos (by simpa using h)]
  exact ⟨_, rfl⟩

theorem run_accepted (h : (LoxLang.Session.analyse source s.nextId).faults = []) :
    ∃ listings, s.run (Host.timed reading) bound listed source =
      concludePlain s (LoxLang.Session.analyse source s.nextId).program listings
        (Run.executeProgram ⟨Host.timed reading, s.locals.extend
            (findingsIn (LoxLang.Session.analyse source s.nextId).program.statements)⟩ bound
          (LoxLang.Session.analyse source s.nextId).program.statements s.machine) := by
  let a := LoxLang.Session.analyse source s.nextId
  refine ⟨(if listed.tokens then Token.listings a.tokens else "") ++
    (if listed.tree then parenthesizedProgram a.program.statements ++ "\n" else ""), ?_⟩
  rw [LoxLang.Session.run, if_neg (by simp [h]), concludePlain.eq_def]
  rfl

variable (hr : ∀ k t t', r k t t' → t.kind = t'.kind ∧ t.lexeme = t'.lexeme)

include hr

/-- Texts that both are accepted, with programs that are alike. -/
theorem Tracks.run_accepted (h : Tracks r t s) {q : NodeId → NodeId → Prop}
    (hf : (LoxLang.Session.analyse source t.nextId).faults = [])
    (hf' : (LoxLang.Session.analyse source' s.nextId).faults = [])
    (hlike : Stmt.LikeAll (r t.programs.length) q
      (LoxLang.Session.analyse source t.nextId).program.statements
      (LoxLang.Session.analyse source' s.nextId).program.statements) :
    Option.Rel (SameReport r) (t.run reading bound source)
      (s.run (Host.timed reading) bound listed source') := by
  obtain ⟨listings, hrun⟩ := Traced.run_accepted reading bound listed hf'
  rw [Session.run_accepted reading bound hf, hrun]
  exact conclude_rel (h.executed reading bound hr (numberedFrom_analyse source t.nextId)
    (numberedFrom_analyse source' s.nextId) hlike) listings

variable (source) in
/-- One text, in both sessions. -/
theorem Tracks.run (h : Tracks r t s) (hrefl : ∀ token, r t.programs.length token token) :
    Option.Rel (SameReport r) (t.run reading bound source)
      (s.run (Host.timed reading) bound listed source) := by
  have hfaults := LoxLang.Session.analyse_faults source t.nextId s.nextId
  by_cases hf : (LoxLang.Session.analyse source t.nextId).faults = []
  · exact h.run_accepted reading bound listed hr hf (hfaults ▸ hf)
      (Stmt.likeAll_of_unnumbered_eq hrefl (LoxLang.Session.unnumbered_analyse source _ _))
  · obtain ⟨listings, hrun⟩ := run_rejected (s := s) reading bound listed (hfaults ▸ hf)
    have hsame : SameFaults r none (LoxLang.Session.analyse source t.nextId).faults
        (LoxLang.Session.analyse source s.nextId).faults := by
      rw [hfaults]
      exact .found
    rw [Session.run_rejected reading bound hf, hrun]
    exact .some ⟨⟨rfl, rfl, hsame⟩,
      h.skip (LoxLang.Session.nextId_le_analyse source _)
        (LoxLang.Session.nextId_le_analyse source _)⟩

omit hr in
/-- A program that is accepted is added. -/
theorem Session.programs_of_run {report : Report}
    (hf : (LoxLang.Session.analyse source t.nextId).faults = [])
    (h : t.run reading bound source = some report) : report.session.programs =
      t.programs ++ [(LoxLang.Session.analyse source t.nextId).program.statements] := by
  rw [Session.run_accepted reading bound hf] at h
  obtain ⟨σ, -, hsession⟩ := session_of_conclude h
  rw [hsession]
  rfl

omit hr in
/-- Programs are only ever added. -/
theorem Session.length_programs_run {report : Report}
    (h : t.run reading bound source = some report) :
    t.programs.length ≤ report.session.programs.length := by
  by_cases hf : (LoxLang.Session.analyse source t.nextId).faults = []
  · rw [Session.programs_of_run reading bound hf h, List.length_append]
    exact Nat.le_add_right _ _
  · rw [Session.run_rejected reading bound hf] at h
    cases h
    exact Nat.le_refl _

/-- Inputs one after the other, in both sessions. -/
theorem Tracks.endings (h : Tracks r t s)
    (hrefl : ∀ k token, t.programs.length ≤ k → r k token token)
    (inputs : List LoxLang.Session.Input) :
    List.Forall₂ (Option.Rel (SameEnding r)) (t.endings reading inputs)
      (s.endings (Host.timed reading) inputs) := by
  induction inputs generalizing t s with
  | nil => exact .nil
  | cons input rest ih =>
    obtain ⟨bound, listed, source⟩ := input
    have hrun := h.run reading bound listed source hr fun token =>
      hrefl _ token (Nat.le_refl _)
    rw [Session.endings, LoxLang.Session.endings]
    cases ht : t.run reading bound source with
    | none =>
      rw [ht] at hrun
      rw [rel_none hrun]
      exact .cons .none .nil
    | some report =>
      rw [ht] at hrun
      obtain ⟨plain, hplain, hsame⟩ := rel_some hrun
      rw [hplain]
      exact .cons (.some hsame.ending) (ih hsame.session fun k token hk =>
        hrefl k token (Nat.le_trans (t.length_programs_run reading bound ht) hk))

/-- The sessions after some inputs. -/
theorem Tracks.after (h : Tracks r t s)
    (hrefl : ∀ k token, t.programs.length ≤ k → r k token token)
    (inputs : List LoxLang.Session.Input) :
    Option.Rel (Tracks r) (t.after reading inputs) (s.after (Host.timed reading) inputs) := by
  induction inputs generalizing t s with
  | nil => exact .some h
  | cons input rest ih =>
    obtain ⟨bound, listed, source⟩ := input
    have hrun := h.run reading bound listed source hr fun token => hrefl _ token (Nat.le_refl _)
    refine rel_bind hrun fun report plain ht _ hsame => ih hsame.session fun k token hk => ?_
    exact hrefl k token (Nat.le_trans (t.length_programs_run reading bound ht) hk)

end

/-! ## Forgetting the trace -/

theorem same_token (k : Nat) (token token' : Token) (h : (fun _ => Eq : Nat → Token → Token → Prop) k token token') :
    token.kind = token'.kind ∧ token.lexeme = token'.lexeme :=
  h ▸ ⟨rfl, rfl⟩

theorem SameEnding.eq {e : Lexical.Ending × Option Place} {e' : Lexical.Ending}
    (h : SameEnding (fun _ => Eq) e e') : e.1 = e' := by
  obtain ⟨⟨status, faults, lines⟩, place⟩ := e
  obtain ⟨status', faults', lines'⟩ := e'
  obtain ⟨rfl, rfl, hfaults⟩ := h
  cases hfaults with
  | found => rfl
  | raised ht => rw [ht]

/-- Inputs show the same in a plain session and in one that tells where its faults are raised. -/
theorem Tracks.plain_endings (h : Tracks (fun _ => Eq) t s) (reading : Nat → Except String Float)
    (inputs : List LoxLang.Session.Input) :
    s.endings (Host.timed reading) inputs = (t.endings reading inputs).map (·.map Prod.fst) := by
  have hall : List.Forall₂ (fun o o' => o.map Prod.fst = o') (t.endings reading inputs)
      (s.endings (Host.timed reading) inputs) := by
    refine (h.endings reading same_token (fun _ _ _ => rfl) inputs).imp fun o o' ho => ?_
    cases ho with
    | none => rfl
    | some he => exact congrArg some he.eq
  rw [← List.forall₂_map_left_iff (R := Eq), List.forall₂_eq_eq_eq] at hall
  exact hall.symm

end LoxLang.Traced
