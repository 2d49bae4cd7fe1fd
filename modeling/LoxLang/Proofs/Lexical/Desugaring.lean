import LoxLang.Proofs.Lexical.Loops
import LoxLang.Proofs.Lexical.Moments

/-!
The meaning of `for` statements.

On frames a `for` statement is executed as the statement as which it is read, with the distances that
were resolved for that.  This ends as the loop does as it stands on the cells for the frames
(`ForLoop.execute_desugared`): the additional blocks and their frames do not show.
-/

namespace LoxLang

namespace Lexical

variable {table : Locals} {bound : NodeId} {reading : Nat → Except String Float} {w : World}
  {f : FrameId}

/-! ## Entered surroundings do not show on frames -/

theorem SameCallable.of_entered {function : Callable}
    {function' function'' : Callable Surroundings}
    (h : SameCallable table bound w function function')
    (he : function'.mapKept Surroundings.enter = function''.mapKept Surroundings.enter) :
    SameCallable table bound w function function'' := by
  cases h with
  | native =>
    cases function'' with
    | native name arity =>
      cases he
      exact .native
    | closure name params body kept => cases he
  | closure hc hkept hs hp =>
    cases function'' with
    | native name arity => cases he
    | closure name params body kept =>
      injection he with hname hparams hbody hentered
      subst hname hparams hbody
      exact .closure hc (hkept.trans hentered) hs hp

theorem SameValue.of_entered {v : Value} {v' v'' : Value Surroundings}
    (h : SameValue table bound w v v') (he : entered v' = entered v'') :
    SameValue table bound w v v'' := by
  cases h with
  | callable hc =>
    cases v'' with
    | callable identity function =>
      injection he with hidentity hfunction
      subst hidentity
      exact .callable (hc.of_entered hfunction)
    | _ => cases he
  | nil =>
    cases v'' with
    | nil => exact .nil
    | _ => cases he
  | bool b =>
    cases v'' with
    | bool b' =>
      cases he
      exact .bool b
    | _ => cases he
  | number x =>
    cases v'' with
    | number x' =>
      cases he
      exact .number x
    | _ => cases he
  | string s =>
    cases v'' with
    | string s' =>
      cases he
      exact .string s
    | _ => cases he

theorem rel_of_entered {o : Option Value} {o' o'' : Option (Value Surroundings)}
    (h : Option.Rel (SameValue table bound w) o o') (he : o'.map entered = o''.map entered) :
    Option.Rel (SameValue table bound w) o o'' := by
  cases h with
  | none =>
    cases o'' with
    | none => exact .none
    | some v'' => cases he
  | some hv =>
    cases o'' with
    | none => cases he
    | some v'' => exact .some (hv.of_entered (Option.some.inj he))

theorem SameCompletion.of_entered {c : Completion} {c' c'' : Completion Surroundings}
    (h : SameCompletion table bound w c c') (he : enteredCompletion c' = enteredCompletion c'') :
    SameCompletion table bound w c c'' := by
  cases h with
  | normal =>
    cases c'' with
    | normal => exact .normal
    | returned v'' => cases he
  | returned hv =>
    cases c'' with
    | normal => cases he
    | returned v'' =>
      injection he with hv'
      exact .returned (hv.of_entered hv')

theorem Related.of_entered {m : LoxLang.Machine} {r r' : Machine}
    (h : Related table bound w f m r) (he : r.entered = r'.entered) :
    Related table bound w f m r' := by
  have hcells : r.cells.map (·.map entered) = r'.cells.map (·.map entered) :=
    congrArg Machine.cells he
  have hglobals : (r.globals.map fun b => (b.1, entered b.2)) =
      r'.globals.map fun b => (b.1, entered b.2) := congrArg Machine.globals he
  have hsize : r.cells.size = r'.cells.size := by
    rw [← Array.size_map, hcells, Array.size_map]
  have hdepth : r.depth = r'.depth := (congrArg Machine.depth he :)
  have hlines : r.lines = r'.lines := (congrArg Machine.lines he :)
  have hnext : r.nextCallable = r'.nextCallable := (congrArg Machine.nextCallable he :)
  have hcalls : r.nativeCalls = r'.nativeCalls := (congrArg Machine.nativeCalls he :)
  refine ⟨⟨h.store.size, h.store.outer, h.store.outermost, ?_, h.store.injective, ?_,
    h.store.undeclared, ?_⟩, h.active, h.depth.trans hdepth, h.lines.trans hlines,
    h.nextCallable.trans hnext, h.nativeCalls.trans hcalls⟩
  · intro g name c hc
    rw [← hsize]
    exact h.store.range hc
  · intro g name c hc
    refine rel_of_entered (h.store.cell hc) ?_
    have hcell := congrArg (fun cells => (cells[c]?).bind id) hcells
    simp only [Array.getElem?_map] at hcell
    revert hcell
    cases r.cells[c]? <;> cases r'.cells[c]? <;> exact id
  · intro name
    refine rel_of_entered (h.store.global name) ?_
    rw [← Frame.lookup_map_mapKept, ← Frame.lookup_map_mapKept]
    exact congrArg (·.lookup name) hglobals

/-! ## Ends -/

/-- The ends of a statement on frames and of one on cells that was begun at the frame `f` in the world
`w`: they complete alike or stop with the same error, after the same lines, and the frames that there
were before hold what their cells hold. -/
def SameEnd (table : Locals) (bound : NodeId) (w : World) (f : FrameId)
    (o : Outcome Stop LoxLang.Machine Completion)
    (o' : Outcome Stop Machine (Completion Surroundings)) : Prop :=
  o.Agrees o'
    (fun c m c' r =>
      ∃ w', w.Grows none w' ∧ Related table bound w' f m r ∧ SameCompletion table bound w' c c')
    fun m r => ∃ w', w.Grows none w' ∧ Related table bound w' f m r

theorem SameEnd.endAlike {o : Outcome Stop LoxLang.Machine Completion}
    {o' o'' : Outcome Stop Machine (Completion Surroundings)} (h : SameEnd table bound w f o o')
    (he : EndAlike o' o'') : SameEnd table bound w f o o'' := by
  refine Outcome.Agrees.trans h he ?_ ?_
  · rintro c m c' r c'' r'' ⟨w', hw, hr, hc⟩ ⟨hc'', hr''⟩
    exact ⟨w', hw, hr.of_entered hr'', hc.of_entered hc''⟩
  · rintro m r r'' ⟨w', hw, hr⟩ hr''
    exact ⟨w', hw, hr.of_entered hr''⟩

end Lexical

namespace ForLoop

open Lexical

theorem desugared_plain (l : ForLoop) : l.desugared.Plain := by
  rw [l.desugared_eq]
  cases l.initializer <;> exact trivial

/-- Wherever a program that a session accepts executes a `for` statement, there are cells and
surroundings for the frames; and whichever these are, the statement that is executed comes to an end
if the loop does as it stands, and to the same end. -/
theorem execute_desugared (reading : Nat → Except String Float) {inputs : List Session.Input}
    {s : Session}
    (hs : (Session.start (Host.timed reading)).after (Host.timed reading) inputs = some s)
    {source : String} (hfaults : (Session.analyse source s.nextId).faults = []) {path : Path}
    {l : ForLoop} {m : Machine} :
    let analysis := Session.analyse source s.nextId
    let table := s.locals.extend analysis.findings
    let bound := analysis.program.nextId
    let context : Context := ⟨Host.timed reading, table⟩
    Occurs context analysis.program.statements s.machine path (.execute l.desugared) m →
      (∃ w scopes inFunction env r, Standing table bound w scopes env m r ∧
        Settled table bound (l.desugared.findings inFunction scopes).1) ∧
      ∀ w scopes inFunction env r, Standing table bound w scopes env m r →
        Settled table bound (l.desugared.findings inFunction scopes).1 →
          (∀ o, (Activity.execute l.desugared).Ends context m o →
            ∃ n, SameEnd table bound w m.active o (l.run reading n env r)) ∧
          ∀ n, l.run reading n env r ≠ .exhausted →
            ∃ o, (Activity.execute l.desugared).Ends context m o ∧
              SameEnd table bound w m.active o (l.run reading n env r) := by
  intro analysis table bound context h
  obtain ⟨w, r, scopes, env, inFunction, hstanding, hsettled, hp⟩ := sited_of_occurs hs hfaults h
  rw [scopesIn_of_plain l.desugared_plain] at hstanding
  refine ⟨⟨w, scopes, inFunction, env, r, hstanding, hsettled⟩, ?_⟩
  clear hstanding hsettled
  intro w scopes inFunction env r hstanding hsettled
  -- The statement is simulated on the cells, and there it goes as the loop does.
  have hsim : ∀ n, SameEnd table bound w m.active (Run.execute context n l.desugared m)
      (execute reading n env l.desugared r) := by
    have hc : Corresponds w (scopesIn scopes l.desugared) m.active env := by
      rw [scopesIn_of_plain l.desugared_plain]
      exact hstanding.corresponds
    exact fun n => (simulated table bound reading n).execute hc hsettled hp m r hstanding.related
  constructor
  · rintro o ⟨hne, n, rfl⟩
    have hend : execute reading n env l.desugared r ≠ .exhausted :=
      fun he => hne ((hsim n).exhausted_iff.2 he)
    exact ⟨n + 2, (hsim n).endAlike (l.run_of_execute hend)⟩
  · intro n hne
    have hsame := (hsim (n + 8)).endAlike (l.execute_of_run hne)
    exact ⟨_, ⟨fun he => hne (hsame.exhausted_iff.1 he), n + 8, rfl⟩, hsame⟩

/-- A loop at top level that prints once. -/
theorem execute_desugared_print :
    let host := Host.timed fun _ => .ok 0
    let start : Machine := .start host
    let source := "for (var i = true; i; i = false) print i;"
    let analysis := Session.analyse source 0
    let table := Locals.extend {} analysis.findings
    let bound := analysis.program.nextId
    ∃ l : ForLoop,
      Occurs ⟨host, table⟩ analysis.program.statements start [] (.execute l.desugared) start ∧
      ∃ w scopes env r o n, Standing table bound w scopes env start r ∧
        (Activity.execute l.desugared).Ends ⟨host, table⟩ start o ∧
        o.state?.map (·.lines) = some #["true"] ∧
        SameEnd table bound w start.active o (l.run (fun _ => .ok 0) n env r) := by
  intro host start source analysis table bound
  have hfaults : analysis.faults = [] := by decide +kernel
  have hfor : firstKind (beforeEof (Token.ofText source)) = .forKw := by decide +kernel
  have hone : analysis.program.statements.length = 1 := by decide +kernel
  have hlines : (Run.executeProgram ⟨host, table⟩ 20 analysis.program.statements
      start).state?.map (·.lines) = some #["true"] := by decide +kernel
  obtain ⟨l, hl⟩ : ∃ l : ForLoop, analysis.program.statements = [l.desugared] := by
    have hread : (Program.ofTokens (Token.ofText source) 0).faults = [] := by decide +kernel
    obtain ⟨l, rest, hl⟩ := exists_desugared_cons (Program.derived_of_faults_eq_nil hread) hfor
    have hprogram : analysis.program = Program.ofTokens (Token.ofText source) 0 := rfl
    rw [← hprogram] at hl
    rw [hl] at hone
    obtain rfl : rest = [] := List.length_eq_zero_iff.1 (Nat.succ.inj hone)
    exact ⟨l, hl⟩
  have hoccurs : Occurs ⟨host, table⟩ analysis.program.statements start []
      (.execute l.desugared) start :=
    ⟨_, _, ⟨[], [], hl, 0, rfl⟩, .start _ _⟩
  have hafter : (Session.start host).after host [] = some (.start host) := rfl
  obtain ⟨⟨w, scopes, inFunction, env, r, hstanding, hsettled⟩, hsame⟩ :=
    execute_desugared (fun _ => .ok 0) hafter hfaults hoccurs
  obtain ⟨o, ho, holines⟩ : ∃ o, (Activity.execute l.desugared).Ends ⟨host, table⟩ start o ∧
      o.state?.map (·.lines) = some #["true"] := by
    rw [hl, Run.executeProgram, Action.bind_apply] at hlines
    refine ⟨Run.execute ⟨host, table⟩ 20 l.desugared start, ⟨?_, 20, rfl⟩, ?_⟩
    · intro he
      rw [he] at hlines
      cases hlines
    · revert hlines
      cases Run.execute ⟨host, table⟩ 20 l.desugared start <;> exact id
  obtain ⟨n, hn⟩ := (hsame w scopes inFunction env r hstanding hsettled).1 o ho
  exact ⟨l, hoccurs, w, scopes, env, r, o, n, hstanding, ho, holines, hn⟩

end ForLoop

end LoxLang
