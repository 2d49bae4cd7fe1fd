import LoxLang.Proofs.Lexical.Sessions
import LoxLang.Proofs.Machine.Moments
import LoxLang.Proofs.Session.Inputs

/-!
Cells and surroundings at every moment.

A run is simulated from its beginning by one with cells.  Here it is followed part by part instead:
where an activity is begun there are cells and surroundings for the frames (`Sited`), and then there
are such where each of its parts is begun, since the parts before that one have been simulated
(`Sited.begins`).  So there are cells and surroundings for the frames at every moment of the run of an
accepted program (`sited_of_occurs`).
-/

namespace LoxLang

namespace Lexical

section

variable (table : Locals) (bound : NodeId)

/-- The machine with cells, and the surroundings, are those for the frames of a machine that is at a
place with these scopes. -/
structure Standing (w : World) (scopes : Scopes) (env : Surroundings) (m : LoxLang.Machine)
    (r : Machine) : Prop where
  related : Related table bound w m.active m r
  corresponds : Corresponds w scopes m.active env

/-- An activity on what has been resolved, where there are cells and surroundings for the frames. -/
def Sited : Activity → LoxLang.Machine → Prop
  | .evaluate e, m => ∃ w r scopes env, Standing table bound w scopes env m r ∧
      Settled table bound (e.findings scopes) ∧ e.Proper
  | .evaluateAll es, m => ∃ w r scopes env, Standing table bound w scopes env m r ∧
      Settled table bound (Expr.findingsAll scopes es) ∧ Expr.ProperAll es
  | .call function _ values, m => ∃ w r function' values', Related table bound w m.active m r ∧
      SameCallable table bound w function function' ∧ SameValues table bound w values values' ∧
      values.length = function.arity
  | .execute s, m => ∃ w r scopes env inFunction,
      Standing table bound w (scopesIn scopes s) env m r ∧
      Settled table bound (s.findings inFunction scopes).1 ∧ s.Proper
  | .executeAll ss, m => ∃ w r scopes env inFunction, Standing table bound w scopes env m r ∧
      Exact w scopes m.active ∧ Settled table bound (Stmt.findingsAll inFunction scopes ss).1 ∧
      Stmt.ProperAll ss
  | .loop condition body, m => ∃ w r scopes env inFunction,
      Standing table bound w scopes env m r ∧ Settled table bound (condition.findings scopes) ∧
      Settled table bound (body.findings inFunction scopes).1 ∧ condition.Proper ∧ body.Proper ∧
      body.Plain

end

variable {table : Locals} {bound : NodeId} {reading : Nat → Except String Float} {w : World}
  {scopes : Scopes} {env : Surroundings} {m s : LoxLang.Machine} {r : Machine} {β : Type}

/-! ## Behind a part -/

/-- What an activity that has been simulated leaves behind. -/
theorem Standing.after (a : Activity) (y : Nat → Run β) {same : World → a.Result → β → Prop}
    (h : Standing table bound w scopes env m r)
    (hsim : ∀ n, Simulates table bound w m.active none
      (a.run ⟨Host.timed reading, table⟩ n) (y n) same) {v : a.Result}
    (ha : a.Ends ⟨Host.timed reading, table⟩ m (.ok v s)) :
    ∃ w' r' v', Standing table bound w' scopes env s r' ∧ s.active = m.active ∧
      w.Grows none w' ∧ same w' v v' := by
  obtain ⟨-, n, hn⟩ := ha
  have hend := hsim n m r h.related
  rw [hn] at hend
  obtain ⟨v', r', -, w', hw, hr', hsame⟩ := hend.ok
  have hactive : s.active = m.active := hr'.active
  refine ⟨w', r', v', ⟨?_, ?_⟩, hactive, hw, hsame⟩
  · rw [hactive]
    exact hr'
  · rw [hactive]
    exact h.corresponds.grows hw

theorem Standing.evaluate {e : Expr} (h : Standing table bound w scopes env m r)
    (hs : Settled table bound (e.findings scopes)) (hp : e.Proper) {v : Value}
    (ha : (Activity.evaluate e).Ends ⟨Host.timed reading, table⟩ m (.ok v s)) :
    ∃ w' r' v', Standing table bound w' scopes env s r' ∧ s.active = m.active ∧
      w.Grows none w' ∧ SameValue table bound w' v v' :=
  h.after (.evaluate e) (fun n => Lexical.evaluate reading n env e)
    (fun n => (simulated table bound reading n).evaluate h.corresponds hs hp) ha

theorem Standing.execute {stmt : Stmt} {inFunction : Bool}
    (h : Standing table bound w (scopesIn scopes stmt) env m r)
    (hs : Settled table bound (stmt.findings inFunction scopes).1) (hp : stmt.Proper)
    {c : Completion}
    (ha : (Activity.execute stmt).Ends ⟨Host.timed reading, table⟩ m (.ok c s)) :
    ∃ w' r' c', Standing table bound w' (scopesIn scopes stmt) env s r' ∧
      s.active = m.active ∧ w.Grows none w' ∧ SameCompletion table bound w' c c' :=
  h.after (.execute stmt) (fun n => Lexical.execute reading n env stmt)
    (fun n => (simulated table bound reading n).execute h.corresponds hs hp) ha

/-! ## The parts of an activity -/

theorem Sited.begins_evaluate {e : Expr} (h : Sited table bound (.evaluate e) m) :
    ((Activity.evaluate e).course ⟨Host.timed reading, table⟩ m).Begins
      ⟨Host.timed reading, table⟩ (Sited table bound) := by
  obtain ⟨w, r, scopes, env, h, hs, hp⟩ := h
  cases e with
  | constant value => exact trivial
  | grouping inner => exact ⟨⟨w, r, scopes, env, h, hs, hp⟩, fun _ _ _ => trivial⟩
  | unary operator operand => exact ⟨⟨w, r, scopes, env, h, hs, hp⟩, fun _ _ _ => trivial⟩
  | binary left operator right =>
    refine ⟨⟨w, r, scopes, env, h, Settled.left hs, hp.1⟩, fun a s ha => ?_⟩
    obtain ⟨w₁, r₁, -, h₁, -⟩ := h.evaluate (Settled.left hs) hp.1 ha
    exact ⟨⟨w₁, r₁, scopes, env, h₁, Settled.right hs, hp.2⟩, fun _ _ _ => trivial⟩
  | logical left operator right =>
    refine ⟨⟨w, r, scopes, env, h, Settled.left hs, hp.1⟩, fun (a : Value) s ha => ?_⟩
    obtain ⟨w₁, r₁, -, h₁, -⟩ := h.evaluate (Settled.left hs) hp.1 ha
    show Course.Begins _ _ (if Run.decides operator a then _ else _)
    by_cases hdecides : Run.decides operator a
    · rw [if_pos hdecides]
      exact trivial
    · rw [if_neg hdecides]
      exact ⟨⟨w₁, r₁, scopes, env, h₁, Settled.right hs, hp.2⟩, fun _ _ _ => trivial⟩
  | read id name => exact trivial
  | assign id name value =>
    exact ⟨⟨w, r, scopes, env, h, Settled.left hs, hp⟩, fun _ _ _ => trivial⟩
  | call callee paren arguments =>
    refine ⟨⟨w, r, scopes, env, h, Settled.left hs, hp.1⟩, fun callable s ha => ?_⟩
    obtain ⟨w₁, r₁, callable', h₁, -, -, hv⟩ := h.evaluate (Settled.left hs) hp.1 ha
    refine ⟨⟨w₁, r₁, scopes, env, h₁, Settled.right hs, hp.2⟩, fun (values : List Value) s' ha' => ?_⟩
    obtain ⟨w₂, r₂, values', h₂, -, hw₂, hvs⟩ := h₁.after (.evaluateAll arguments)
      (fun n => Lexical.evaluateAll reading n env arguments)
      (fun n =>
        (simulated table bound reading n).evaluateAll h₁.corresponds (Settled.right hs) hp.2)
      ha'
    cases hv with
    | @callable identity function function' hc =>
      show Course.Begins _ _ (if values.length = function.arity then _ else _)
      by_cases hcount : values.length = function.arity
      · rw [if_pos hcount]
        exact ⟨⟨w₂, r₂, function', values', h₂.related, hc.grows hw₂, hvs, hcount⟩,
          fun _ _ _ => trivial⟩
      · rw [if_neg hcount]
        exact trivial
    | _ => exact trivial
  | function keyword params body => exact trivial

theorem Sited.begins_call {function : Callable} {paren : Token} {values : List Value}
    (h : Sited table bound (.call function paren values) m) :
    ((Activity.call function paren values).course ⟨Host.timed reading, table⟩ m).Begins
      ⟨Host.timed reading, table⟩ (Sited table bound) := by
  obtain ⟨w, r, function', values', hr, hf, hvs, hcount⟩ := h
  cases hf with
  | native => exact trivial
  | @closure name params body frame outside kept scopes hc he hs hp =>
    show Course.Begins _ _ (if maxCallDepth ≤ m.depth then _ else _)
    by_cases hdeep : maxCallDepth ≤ m.depth
    · rw [if_pos hdeep]
      exact trivial
    · rw [if_neg hdeep]
      refine ⟨?_, fun c _ _ => by cases c <;> exact trivial⟩
      have hframe := simulates_newFrame hc he (Settled.left hs) hvs hcount m r hr
      obtain ⟨inside, r₁, -, w₁, -, hr₁, -, hc₁, he₁⟩ := hframe.ok
      refine ⟨w₁, { r₁ with depth := r₁.depth + 1 }, _, inside, true, ⟨?_, hc₁⟩, he₁,
        Settled.right hs, hp⟩
      exact ⟨hr₁.store, rfl, congrArg (· + 1) hr₁.depth, hr₁.lines, hr₁.nextCallable,
        hr₁.nativeCalls⟩

theorem Sited.begins_execute {stmt : Stmt} (h : Sited table bound (.execute stmt) m) :
    ((Activity.execute stmt).course ⟨Host.timed reading, table⟩ m).Begins
      ⟨Host.timed reading, table⟩ (Sited table bound) := by
  obtain ⟨w, r, scopes, env, inFunction, h, hs, hp⟩ := h
  cases stmt with
  | expression value => exact ⟨⟨w, r, scopes, env, h, hs, hp⟩, fun _ _ _ => trivial⟩
  | print keyword value => exact ⟨⟨w, r, scopes, env, h, hs, hp⟩, fun _ _ _ => trivial⟩
  | var name initializer =>
    cases initializer with
    | none => exact trivial
    | some value =>
      exact ⟨⟨w, r, scopes.declare name, env, h, Settled.right hs, hp⟩, fun _ _ _ => trivial⟩
  | block body =>
    refine ⟨?_, fun _ _ _ => trivial⟩
    have hc : Corresponds w scopes m.active env := h.corresponds
    have hnew : Simulates table bound w m.active none Run.newInnerFrame (pure env.enter) _ :=
      simulates_newInnerFrame hc
    have hframe := hnew m r h.related
    obtain ⟨inside, r₁, -, w₁, -, hr₁, -, hc₁, he₁⟩ := hframe.ok
    refine ⟨w₁, r₁, {} :: scopes, inside, inFunction, ⟨?_, hc₁⟩, he₁, hs, hp⟩
    exact ⟨hr₁.store, rfl, hr₁.depth, hr₁.lines, hr₁.nextCallable, hr₁.nativeCalls⟩
  | ifElse condition thenBranch elseBranch =>
    obtain ⟨hpc, ⟨hpt, hplain⟩, hpe⟩ := hp
    have hscopes := thenBranch.scopes_of_plain hpt hplain inFunction scopes
    refine ⟨⟨w, r, scopes, env, h, Settled.left hs, hpc⟩, fun (v : Value) s ha => ?_⟩
    have here : Standing table bound w scopes env m r := h
    obtain ⟨w₁, r₁, -, h₁, -⟩ := here.evaluate (Settled.left hs) hpc ha
    show Course.Begins _ _ (if v.isTruthy then _ else _)
    by_cases htruthy : v.isTruthy
    · rw [if_pos htruthy]
      rw [← scopesIn_of_plain hplain scopes] at h₁
      exact ⟨⟨w₁, r₁, scopes, env, inFunction, h₁, Settled.left (Settled.right hs), hpt⟩,
        fun _ _ _ => trivial⟩
    · rw [if_neg htruthy]
      cases elseBranch with
      | none => exact trivial
      | some branch =>
        have helse : Settled table bound
            (branch.findings inFunction (thenBranch.findings inFunction scopes).2).1 :=
          Settled.right (Settled.right hs)
        rw [hscopes] at helse
        rw [← scopesIn_of_plain hpe.2 scopes] at h₁
        exact ⟨⟨w₁, r₁, scopes, env, inFunction, h₁, helse, hpe.1⟩, fun _ _ _ => trivial⟩
  | «while» condition body =>
    exact ⟨⟨w, r, scopes, env, inFunction, h, Settled.left hs, Settled.right hs, hp.1, hp.2.1,
      hp.2.2⟩, fun _ _ _ => trivial⟩
  | function name params body => exact trivial
  | «return» keyword value =>
    cases value with
    | none => exact trivial
    | some value => exact ⟨⟨w, r, scopes, env, h, Settled.right hs, hp⟩, fun _ _ _ => trivial⟩

theorem Sited.begins_executeAll {ss : List Stmt} (h : Sited table bound (.executeAll ss) m) :
    ((Activity.executeAll ss).course ⟨Host.timed reading, table⟩ m).Begins
      ⟨Host.timed reading, table⟩ (Sited table bound) := by
  obtain ⟨w, r, scopes, env, inFunction, h, he, hs, hp⟩ := h
  cases ss with
  | nil => exact trivial
  | cons stmt ss =>
    have hhere : Settled table bound (stmt.findings inFunction scopes).1 := Settled.left hs
    -- The name that the statement declares gets its cell before the statement is executed.
    have hdeclare := simulates_declareIn h.corresponds he hhere m r h.related
    obtain ⟨inside, r₁, -, w₁, -, hr₁, hc₁, he₁⟩ := hdeclare.ok
    have h₁ : Standing table bound w₁ (scopesIn scopes stmt) inside m r₁ := ⟨hr₁, hc₁⟩
    refine ⟨⟨w₁, r₁, scopes, inside, inFunction, h₁, hhere, hp.1⟩,
      fun (c : Completion) s ha => ?_⟩
    obtain ⟨w₂, r₂, -, h₂, hactive, hw₂, -⟩ := h₁.execute hhere hp.1 ha
    have he₂ : Exact w₂ (scopesIn scopes stmt) s.active := by
      rw [hactive]
      exact he₁.grows hc₁ hw₂
    have hafter : Corresponds w₂ (stmt.findings inFunction scopes).2 s.active inside ∧
        Exact w₂ (stmt.findings inFunction scopes).2 s.active :=
      corresponds_after hp.1 h₂.corresponds he₂
    obtain ⟨hc₃, he₃⟩ := hafter
    cases c with
    | returned v => exact trivial
    | normal =>
      exact ⟨⟨w₂, r₂, _, inside, inFunction, ⟨h₂.related, hc₃⟩, he₃, Settled.right hs, hp.2⟩,
        fun _ _ _ => trivial⟩

theorem Sited.begins_loop {condition : Expr} {body : Stmt}
    (h : Sited table bound (.loop condition body) m) :
    ((Activity.loop condition body).course ⟨Host.timed reading, table⟩ m).Begins
      ⟨Host.timed reading, table⟩ (Sited table bound) := by
  obtain ⟨w, r, scopes, env, inFunction, h, hs, hsb, hp, hpb, hplain⟩ := h
  refine ⟨⟨w, r, scopes, env, h, hs, hp⟩, fun (v : Value) s ha => ?_⟩
  obtain ⟨w₁, r₁, -, h₁, -⟩ := h.evaluate hs hp ha
  have hbody : scopesIn scopes body = scopes := scopesIn_of_plain hplain scopes
  show Course.Begins _ _ (if v.isTruthy then _ else _)
  by_cases htruthy : v.isTruthy
  · rw [if_pos htruthy]
    rw [← hbody] at h₁
    refine ⟨⟨w₁, r₁, scopes, env, inFunction, h₁, hsb, hpb⟩, fun (c : Completion) s' ha' => ?_⟩
    obtain ⟨w₂, r₂, -, h₂, -⟩ := h₁.execute hsb hpb ha'
    rw [hbody] at h₂
    cases c with
    | returned v => exact trivial
    | normal =>
      exact ⟨⟨w₂, r₂, scopes, env, inFunction, h₂, hs, hsb, hp, hpb, hplain⟩,
        fun _ _ _ => trivial⟩
  · rw [if_neg htruthy]
    exact trivial

/-- Where an activity is sited, its parts are. -/
theorem Sited.begins {a : Activity} (h : Sited table bound a m) :
    (a.course ⟨Host.timed reading, table⟩ m).Begins ⟨Host.timed reading, table⟩
      (Sited table bound) := by
  cases a with
  | evaluate e => exact h.begins_evaluate
  | evaluateAll es =>
    obtain ⟨w, r, scopes, env, h, hs, hp⟩ := h
    cases es with
    | nil => exact trivial
    | cons e es =>
      refine ⟨⟨w, r, scopes, env, h, Settled.left hs, hp.1⟩, fun v s ha => ?_⟩
      obtain ⟨w₁, r₁, -, h₁, -⟩ := h.evaluate (Settled.left hs) hp.1 ha
      exact ⟨⟨w₁, r₁, scopes, env, h₁, Settled.right hs, hp.2⟩, fun _ _ _ => trivial⟩
  | call function paren values => exact h.begins_call
  | execute stmt => exact h.begins_execute
  | executeAll ss => exact h.begins_executeAll
  | loop condition body => exact h.begins_loop

/-! ## Every moment -/

theorem Sited.comes {a b : Activity} {path : Path} {m' : LoxLang.Machine}
    (h : Sited table bound a m) (hb : Comes ⟨Host.timed reading, table⟩ a m path b m') :
    Sited table bound b m' := by
  induction hb with
  | start _ _ => exact h
  | within hpart _ ih => exact ih (h.begins.part hpart)

theorem standing_top (hr : Related table bound w Store.globalFrame m r) (stmt : Stmt) :
    Standing table bound w (scopesIn [] stmt) .top m r := by
  have htop : scopesIn [] stmt = [] := by cases stmt <;> rfl
  refine ⟨?_, htop, hr.active⟩
  rw [hr.active]
  exact hr

/-- The statement at which a program has arrived. -/
theorem sited_of_arrives {program : List Stmt} {stmt : Stmt} {m' : LoxLang.Machine}
    (hr : Related table bound w Store.globalFrame m r)
    (hs : Settled table bound (findingsIn program)) (hp : Stmt.ProperAll program)
    (h : Arrives ⟨Host.timed reading, table⟩ program m stmt m') :
    Sited table bound (.execute stmt) m' := by
  obtain ⟨before, rest, rfl, hthrough⟩ := h
  induction before generalizing w m r with
  | nil =>
    obtain ⟨_, hm⟩ := hthrough
    cases hm
    exact ⟨w, r, [], .top, false, standing_top hr stmt, Settled.left hs, hp.1⟩
  | cons first before ih =>
    obtain ⟨c, m₁, hfirst, hthrough⟩ := through_cons.1 hthrough
    obtain ⟨w₁, r₁, -, h₁, hactive, -⟩ :=
      (standing_top hr first).execute (Settled.left hs) hp.1 hfirst
    have hrest : Settled table bound
        (Stmt.findingsAll false (first.findings false []).2 (before ++ stmt :: rest)).1 :=
      Settled.right hs
    rw [first.scopes_top hp.1 false] at hrest
    have hr₁ : Related table bound w₁ Store.globalFrame m₁ r₁ := by
      rw [← hr.active, ← hactive]
      exact h₁.related
    exact ih hr₁ hthrough hrest hp.2

/-- Sessions that are at the same point are so after further inputs. -/
theorem SameSession.after {s s' : LoxLang.Session} {t : Session} (h : SameSession s t)
    {inputs : List Session.Input}
    (hs : s.after (Host.timed reading) inputs = some s') : ∃ t', SameSession s' t' := by
  induction inputs generalizing s t with
  | nil =>
    cases hs
    exact ⟨t, h⟩
  | cons input rest ih =>
    obtain ⟨bound, listed, source⟩ := input
    obtain ⟨report, hrun, hrest⟩ := Session.after_cons hs
    have hnext := h.run reading bound listed source
    rw [hrun] at hnext
    revert hnext
    generalize t.run reading bound source = next
    intro hnext
    cases hnext with
    | some hsame => exact ih hsame.2 hrest

/-- Cells and surroundings at every moment of the run of a program that a session accepts. -/
theorem sited_of_occurs {inputs : List Session.Input} {s : LoxLang.Session}
    (hs : (LoxLang.Session.start (Host.timed reading)).after (Host.timed reading) inputs = some s)
    {source : String} (hfaults : (Session.analyse source s.nextId).faults = []) {path : Path}
    {a : Activity} {m : LoxLang.Machine}
    (h : Occurs ⟨Host.timed reading, s.locals.extend (Session.analyse source s.nextId).findings⟩
      (Session.analyse source s.nextId).program.statements s.machine path a m) :
    Sited (s.locals.extend (Session.analyse source s.nextId).findings)
      (Session.analyse source s.nextId).program.nextId a m := by
  obtain ⟨t, ⟨w, hw⟩, -, hunused⟩ := (sameSession_start reading).after hs
  obtain ⟨hproper, hsettled, hold, -⟩ := Session.accepted source hunused hfaults
  obtain ⟨stmt, m₁, harrives, hcomes⟩ := h
  have hle := Session.nextId_le_analyse source s.nextId
  exact (sited_of_arrives (hw.mono hle hold) hsettled hproper harrives).comes hcomes

end Lexical

end LoxLang
