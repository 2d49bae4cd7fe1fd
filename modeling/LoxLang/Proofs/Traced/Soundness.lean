import LoxLang.Proofs.Traced.Keeping

/-!
Evaluation keeps the nesting of frames.

The induction is on the bound on the steps, for all parts of programs at once (`preserved`).  A block
and a call run their statements in a new frame, which mirrors one more scope; a function that is
called keeps a frame that mirrors the place where it stands, wherever the call is.
-/

namespace LoxLang.Traced

/-- A returned value is sound. -/
def Ended (g : Ground) : Completion Kept → Heap → Prop
  | .normal, _ => True
  | .returned v, h => SoundValue g h v

/-- Behind a statement that ends normally the frames mirror the scopes there. -/
def Completed (g : Ground) (f : FrameId) (places : List Place) (scopes : Scopes) :
    Completion Kept → Heap → Prop
  | .normal, h => Mirrors h f places scopes
  | .returned v, h => SoundValue g h v

variable {g : Ground} {reading : Nat → Except String Float} {n : Nat} {p : Place} {scopes : Scopes}
  {s : State} {node : Node}

theorem Ended.completed {c : Completion Kept} {h : Heap} (hc : Ended g c h) {f : FrameId}
    {places : List Place} (hm : Mirrors h f places scopes) : Completed g f places scopes c h := by
  cases c with
  | normal => exact hm
  | returned v => exact hc

/-- What evaluation within a bound keeps. -/
structure Preserved (g : Ground) (reading : Nat → Except String Float) (n : Nat) : Prop where
  evaluate : ∀ {p e scopes s}, p.node? g.programs = some (.expression e) → Here g p scopes s →
    Noted g (e.findings scopes) → e.Proper →
    Keeps g (evaluate reading g.locals n p e) s fun v h => SoundValue g h v
  evaluateAll : ∀ {p i node es scopes s}, p.node? g.programs = some node →
    node.opensScope = false → node.children.drop i = es.map .expression → Here g p scopes s →
    Noted g (Expr.findingsAll scopes es) → Expr.ProperAll es →
    Keeps g (evaluateAll reading g.locals n p i es) s fun vs h => ∀ v ∈ vs, SoundValue g h v
  call : ∀ {p function paren values s}, SoundCallable g s.heap function →
    (∀ v ∈ values, SoundValue g s.heap v) → values.length = function.arity →
    Keeps g (call reading g.locals n p function paren values) s fun v h => SoundValue g h v
  execute : ∀ {p st inFunction scopes s}, p.node? g.programs = some (.statement st) →
    Here g p scopes s → Noted g (st.findings inFunction scopes).1 → st.Proper →
    Keeps g (execute reading g.locals n p st) s (Completed g s.machine.active
      (p.enclosing g.programs) (st.findings inFunction scopes).2)
  executeAll : ∀ {p i node ss inFunction scopes s}, p.node? g.programs = some node →
    node.children.drop i = ss.map .statement → Here g (p.below i) scopes s →
    Noted g (Stmt.findingsAll inFunction scopes ss).1 → Stmt.ProperAll ss →
    Keeps g (executeAll reading g.locals n p i ss) s (Ended g)
  loop : ∀ {p condition body inFunction scopes s},
    p.node? g.programs = some (.statement (.while condition body)) → Here g p scopes s →
    Noted g (condition.findings scopes) → Noted g (body.findings inFunction scopes).1 →
    condition.Proper → body.Proper → body.Plain →
    Keeps g (loop reading g.locals n p condition body) s (Ended g)

/-! ## Expressions -/

theorem Preserved.callValue (h : Preserved g reading n) {v : Value Kept} {paren : Token}
    {values : List (Value Kept)} (hv : SoundValue g s.heap v)
    (hvs : ∀ v ∈ values, SoundValue g s.heap v) :
    Keeps g (match v with
      | .callable _ function =>
        if values.length = function.arity then
          Traced.call reading g.locals n p function paren values
        else step p (Run.fault (.wrongArgumentCount function.arity values.length) paren)
      | _ => step p (Run.fault .notCallable paren)) s fun v h => SoundValue g h v := by
  cases v with
  | callable identity function =>
    dsimp only
    by_cases hlen : values.length = function.arity
    · rw [if_pos hlen]
      exact h.call hv hvs hlen
    · rw [if_neg hlen]
      exact .fault (fun _ hc => Cause.noConfusion hc) paren
  | _ => exact .fault (fun _ hc => Cause.noConfusion hc) paren

theorem Preserved.evaluate_succ (h : Preserved g reading n) {e : Expr}
    (hn : p.node? g.programs = some (.expression e)) (hh : Here g p scopes s)
    (hf : Noted g (e.findings scopes)) (hp : e.Proper) :
    Keeps g (Traced.evaluate reading g.locals (n + 1) p e) s fun v h => SoundValue g h v := by
  refine .bind (.visit hh hn fun use hu => hf.reference hu) ?_
  intro s₀ _ hl₀ _
  have hh := hh.later hl₀
  have child := fun i => Place.node?_below hn i
  cases e with
  | constant value => exact .pure (.ofConstant _ value)
  | grouping inner => exact h.evaluate (child 0) (hh.below hn rfl 0) hf hp
  | unary operator operand =>
    refine .bind (h.evaluate (child 0) (hh.below hn rfl 0) hf hp) ?_
    intro v s₁ _ _
    exact .applyUnary operator v
  | binary left operator right =>
    refine .bind (h.evaluate (child 0) (hh.below hn rfl 0) hf.left hp.1) ?_
    intro a s₁ hl₁ _
    refine .bind (h.evaluate (child 1) ((hh.later hl₁).below hn rfl 1) hf.right hp.2) ?_
    intro b s₂ _ _
    exact .applyBinary operator a b
  | logical left operator right =>
    refine .bind (h.evaluate (child 0) (hh.below hn rfl 0) hf.left hp.1) ?_
    intro a s₁ hl₁ ha
    by_cases hdecides : Run.decides operator a = true
    · rw [if_pos hdecides]
      exact .pure ha
    · rw [if_neg hdecides]
      exact h.evaluate (child 1) ((hh.later hl₁).below hn rfl 1) hf.right hp.2
  | read id name => exact .readVariable hh hn hf _
  | assign id name value =>
    refine .bind (h.evaluate (child 0) (hh.below hn rfl 0) hf.left hp) ?_
    intro v s₁ hl₁ hv
    have hh₁ := hh.later hl₁
    refine .bind (.visit hh₁ hn fun use hu => hf.reference hu) ?_
    intro _ s₂ hl₂ _
    refine .bind (.assignVariable (hh₁.later hl₂) hn hf _ (hv.grows hl₂.grows)) ?_
    intro _ s₃ hl₃ _
    exact .pure ((hv.grows hl₂.grows).grows hl₃.grows)
  | call callee paren arguments =>
    refine .bind (h.evaluate (child 0) (hh.below hn rfl 0) hf.left hp.1) ?_
    intro v s₁ hl₁ hv
    refine .bind (h.evaluateAll (i := 1) hn rfl rfl (hh.later hl₁) hf.right hp.2) ?_
    intro values s₂ hl₂ hvs
    exact h.callValue (hv.grows hl₂.grows) hvs
  | function keyword params body =>
    refine (Keeps.closure none params body).mono ?_
    rintro _ t hl ⟨-, identity, rfl⟩
    exact .closure hn rfl (hh.mirrors.grows hl.grows) hh.unready hf.right hp

theorem Preserved.evaluateAll_succ (h : Preserved g reading n) {i : Nat} {es : List Expr}
    (hn : p.node? g.programs = some node) (ho : node.opensScope = false)
    (hes : node.children.drop i = es.map .expression) (hh : Here g p scopes s)
    (hf : Noted g (Expr.findingsAll scopes es)) (hp : Expr.ProperAll es) :
    Keeps g (Traced.evaluateAll reading g.locals (n + 1) p i es) s
      fun vs h => ∀ v ∈ vs, SoundValue g h v := by
  cases es with
  | nil => exact .pure fun _ hv => (List.not_mem_nil hv).elim
  | cons e es =>
    obtain ⟨hnode, hrest⟩ := Place.node?_below_of_drop hn hes
    refine .bind (h.evaluate hnode (hh.below hn ho i) hf.left hp.1) ?_
    intro v s₁ hl₁ hv
    refine .bind (h.evaluateAll hn ho hrest (hh.later hl₁) hf.right hp.2) ?_
    intro vs s₂ hl₂ hvs
    refine .pure fun u hu => ?_
    rcases List.mem_cons.1 hu with rfl | hu
    · exact hv.grows hl₂.grows
    · exact hvs u hu

/-! ## Calls -/

theorem Preserved.call_succ (h : Preserved g reading n) {function : Callable Kept} {paren : Token}
    {values : List (Value Kept)} (hc : SoundCallable g s.heap function)
    (hvs : ∀ v ∈ values, SoundValue g s.heap v) (hlen : values.length = function.arity) :
    Keeps g (Traced.call reading g.locals (n + 1) p function paren values) s
      fun v h => SoundValue g h v := by
  cases hc with
  | native => exact .readClock reading paren
  | @closure name params body f place node scopes hn hfunction hm hu hnoted hp =>
    obtain ⟨ho, hchildren⟩ := Node.opensScope_of_function hfunction
    refine .bind (.newFrame place f fun b hb => hvs _ (List.of_mem_zip hb).2) ?_
    rintro _ s₁ hl₁ ⟨rfl, heap⟩
    obtain ⟨scope, hscopes, hready⟩ := Scopes.parameters_cons {} scopes params
    have hnames : ((params.map (·.lexeme)).zip values).map Prod.fst = params.map (·.lexeme) := by
      refine List.map_fst_zip ?_
      rw [List.length_map, hlen]
      exact Nat.le_refl _
    have hinside : Mirrors s₁.heap s.heap.store.nextFrame ((place.below 0).enclosing g.programs)
        (Scopes.parameters ({} :: scopes) params).2 := by
      rw [heap, hscopes, Place.enclosing_below_of_opens hn ho]
      refine hm.push place fun name hr => ?_
      rw [hready] at hr
      rw [hnames]
      by_cases hmem : name ∈ params.map (·.lexeme)
      · exact hmem
      · rw [if_neg hmem] at hr
        cases hr
    refine .bind (.inCall (.inFrame (h.executeAll (i := 0) hn hchildren
      ⟨hinside, hu.parameters hn ho params 0⟩ hnoted hp))) ?_
    intro c s₂ _ hended
    cases c with
    | normal => exact .pure trivial
    | returned v => exact .pure hended

/-! ## Statements -/

/-- A function is declared in the frame that it keeps. -/
theorem Keeps.declareFunction {name : Token} {params : List Token} {body : List Stmt}
    {inFunction : Bool} (hn : p.node? g.programs = some (.statement (.function name params body)))
    (hh : Here g p scopes s)
    (hf : Noted g ((Stmt.function name params body).findings inFunction scopes).1)
    (hp : Stmt.ProperAll body) :
    Keeps g (do
      let f ← step p (Traced.closure p (some name.lexeme) params body)
      step p (Run.define name.lexeme f)
      Traced.pure .normal) s
      (Completed g s.machine.active (p.enclosing g.programs) (scopes.bind name)) := by
  refine .bind (.closure (some name.lexeme) params body) ?_
  rintro _ s₁ hl₁ ⟨-, identity, rfl⟩
  -- The function keeps the frame in which its own name is bound.
  have hbound := fun v => (hl₁.mirrors hh.mirrors).define name v
  refine .bind (.define ?_) ?_
  · exact .closure hn rfl (hl₁.active ▸ hbound _) (hh.unready.bind name) hf.right.right hp
  · intro _ s₂ _ heap
    refine .pure ?_
    rw [heap]
    exact hl₁.active ▸ hbound _

/-- The value of a variable is bound in the frame that was active before. -/
theorem Keeps.declareVar {s₁ : State} {name : Token} {v : Value Kept} (hh : Here g p scopes s)
    (hl : Later g s s₁) (hv : SoundValue g s₁.heap v) :
    Keeps g (step p (Run.define name.lexeme v) >>= fun _ => Pure.pure Completion.normal) s₁
      (Completed g s.machine.active (p.enclosing g.programs) (scopes.bind name)) := by
  refine .bind (.define (hv.grows (grows_define _ _ _ _))) ?_
  intro _ s₂ _ heap
  refine .pure ?_
  rw [heap]
  exact hl.active ▸ (hl.mirrors hh.mirrors).define name v

theorem Preserved.executeBlock (h : Preserved g reading n) {body : List Stmt} {inFunction : Bool}
    (hn : p.node? g.programs = some (.statement (.block body))) (hh : Here g p scopes s)
    (hf : Noted g (Stmt.findingsAll inFunction ({} :: scopes) body).1) (hp : Stmt.ProperAll body) :
    Keeps g
      (newInnerFrame p >>= fun f => inFrame f (Traced.executeAll reading g.locals n p 0 body)) s
      (Completed g s.machine.active (p.enclosing g.programs) scopes) := by
  refine .bind (.newInnerFrame p) ?_
  rintro _ s₁ hl₁ ⟨rfl, heap⟩
  have hinside : Mirrors s₁.heap s.heap.store.nextFrame ((p.below 0).enclosing g.programs)
      ({} :: scopes) := by
    rw [heap, Place.enclosing_below_of_opens hn rfl]
    exact hh.mirrors.push p fun name hr => nomatch hr
  refine (Keeps.inFrame (h.executeAll (i := 0) hn rfl
    ⟨hinside, hh.unready.enter hn rfl (fun name (hr : Scope.ready? {} name = _) => nomatch hr) 0⟩
    hf hp)).mono ?_
  intro c s₂ hl₂ hended
  exact hended.completed (hh.mirrors.grows (hl₁.grows.trans hl₂.grows))

theorem Preserved.execute_succ (h : Preserved g reading n) {st : Stmt} {inFunction : Bool}
    (hn : p.node? g.programs = some (.statement st)) (hh : Here g p scopes s)
    (hf : Noted g (st.findings inFunction scopes).1) (hp : st.Proper) :
    Keeps g (Traced.execute reading g.locals (n + 1) p st) s (Completed g s.machine.active
      (p.enclosing g.programs) (st.findings inFunction scopes).2) := by
  refine .bind (.visit hh hn fun use hu => nomatch hu) ?_
  intro _ s₀ hl₀ _
  rw [← hl₀.active]
  have hh := hh.later hl₀
  have child := fun i => Place.node?_below hn i
  cases st with
  | expression value =>
    refine .bind (h.evaluate (child 0) (hh.below hn rfl 0) hf hp) ?_
    intro v s₁ hl₁ _
    exact .pure (hh.mirrors.grows hl₁.grows)
  | print keyword value =>
    refine .bind (h.evaluate (child 0) (hh.below hn rfl 0) hf hp) ?_
    intro v s₁ hl₁ _
    refine .bind (.print v.display) ?_
    intro _ s₂ hl₂ _
    exact .pure (hh.mirrors.grows (hl₁.grows.trans hl₂.grows))
  | var name initializer =>
    cases initializer with
    | none =>
      have hnil : Keeps g (Pure.pure Value.nil) s₀ fun v h => SoundValue g h v := .pure trivial
      exact .bind hnil fun _ _ => .declareVar hh
    | some value =>
      have hinside : Here g (p.below 0) (scopes.declare name) s₀ :=
        ⟨(hh.below hn rfl 0).mirrors.declare name, hh.unready.declare hn 0⟩
      exact .bind (h.evaluate (child 0) hinside hf.right hp) fun _ _ => .declareVar hh
  | block body => exact h.executeBlock hn hh hf hp
  | ifElse condition thenBranch elseBranch =>
    rw [Stmt.scopes_of_plain (.ifElse condition thenBranch elseBranch) hp trivial]
    obtain ⟨hpc, ⟨hpt, hplain⟩, hpe⟩ := hp
    have hscopes := thenBranch.scopes_of_plain hpt hplain inFunction scopes
    refine .bind (h.evaluate (child 0) (hh.below hn rfl 0) hf.left hpc) ?_
    intro v s₁ hl₁ _
    rw [← hl₁.active]
    have hh₁ := hh.later hl₁
    by_cases htruthy : v.isTruthy = true
    · rw [if_pos htruthy]
      have hthen := h.execute (child 1) (hh₁.below hn rfl 1) hf.right.left hpt
      rwa [hscopes, Place.enclosing_below hn rfl] at hthen
    · rw [if_neg htruthy]
      cases elseBranch with
      | none => exact .pure hh₁.mirrors
      | some branch =>
        have hfb : Noted g (branch.findings inFunction scopes).1 := hscopes ▸ hf.right.right
        have helse := h.execute (child 2) (hh₁.below hn rfl 2) hfb hpe.1
        rwa [branch.scopes_of_plain hpe.1 hpe.2, Place.enclosing_below hn rfl] at helse
  | «while» condition body =>
    rw [Stmt.scopes_of_plain (.while condition body) hp trivial]
    refine (h.loop hn hh hf.left hf.right hp.1 hp.2.1 hp.2.2).mono ?_
    intro c s₁ hl₁ hended
    exact hended.completed (hh.mirrors.grows hl₁.grows)
  | function name params body => exact .declareFunction hn hh hf hp
  | «return» keyword value =>
    cases value with
    | none => exact .pure trivial
    | some value =>
      refine .bind (h.evaluate (child 0) (hh.below hn rfl 0) hf.right hp) ?_
      intro v s₁ _ hv
      exact .pure hv

theorem Preserved.executeAll_succ (h : Preserved g reading n) {i : Nat} {ss : List Stmt}
    {inFunction : Bool} (hn : p.node? g.programs = some node)
    (hss : node.children.drop i = ss.map .statement) (hh : Here g (p.below i) scopes s)
    (hf : Noted g (Stmt.findingsAll inFunction scopes ss).1) (hp : Stmt.ProperAll ss) :
    Keeps g (Traced.executeAll reading g.locals (n + 1) p i ss) s (Ended g) := by
  cases ss with
  | nil => exact .pure trivial
  | cons st ss =>
    obtain ⟨hnode, hrest⟩ := Place.node?_below_of_drop hn hss
    refine .bind (h.execute hnode hh hf.left hp.1) ?_
    intro c s₁ hl₁ hcompleted
    cases c with
    | returned v => exact .pure hcompleted
    | normal =>
      have hh₁ : Here g (p.below i) (st.findings inFunction scopes).2 s₁ :=
        ⟨hl₁.active ▸ hcompleted, hh.unready.after hp.1 inFunction⟩
      exact h.executeAll hn hrest ⟨hh₁.mirrors, hh₁.unready⟩ hf.right hp.2

theorem Preserved.loop_succ (h : Preserved g reading n) {condition : Expr} {body : Stmt}
    {inFunction : Bool} (hn : p.node? g.programs = some (.statement (.while condition body)))
    (hh : Here g p scopes s) (hf : Noted g (condition.findings scopes))
    (hfb : Noted g (body.findings inFunction scopes).1) (hp : condition.Proper)
    (hpb : body.Proper) (hplain : body.Plain) :
    Keeps g (Traced.loop reading g.locals (n + 1) p condition body) s (Ended g) := by
  refine .bind (h.evaluate (Place.node?_below hn 0) (hh.below hn rfl 0) hf hp) ?_
  intro v s₁ hl₁ _
  have hh₁ := hh.later hl₁
  by_cases htruthy : v.isTruthy = true
  · rw [if_pos htruthy]
    refine .bind (h.execute (Place.node?_below hn 1) (hh₁.below hn rfl 1) hfb hpb) ?_
    intro c s₂ hl₂ hcompleted
    cases c with
    | returned v => exact .pure hcompleted
    | normal => exact h.loop hn (hh₁.later hl₂) hf hfb hp hpb hplain
  · rw [if_neg htruthy]
    exact .pure trivial

/-! ## All together -/

theorem preserved (g : Ground) (reading : Nat → Except String Float) (n : Nat) :
    Preserved g reading n := by
  induction n with
  | zero =>
    exact ⟨fun _ _ _ _ => .outOfSteps, fun _ _ _ _ _ _ => .outOfSteps,
      fun _ _ _ => .outOfSteps, fun _ _ _ _ => .outOfSteps, fun _ _ _ _ _ => .outOfSteps,
      fun _ _ _ _ _ _ _ => .outOfSteps⟩
  | succ n ih =>
    exact ⟨ih.evaluate_succ, ih.evaluateAll_succ, ih.call_succ, ih.execute_succ,
      ih.executeAll_succ, ih.loop_succ⟩

/-- The statements of a program, from the top level. -/
theorem keeps_executeProgram (g : Ground) (reading : Nat → Except String Float) (n : Nat)
    {program ss : List Stmt} {i : Nat} (hn : p.node? g.programs = some (.program program))
    (hss : program.drop i = ss) (hh : Here g (p.below i) [] s)
    (hf : Noted g (findingsIn ss)) (hp : Stmt.ProperAll ss) :
    Keeps g (executeProgram reading g.locals n p i ss) s fun _ _ => True := by
  induction ss generalizing i s with
  | nil => exact .pure trivial
  | cons st ss ih =>
    have hdrop : (Node.program program).children.drop i =
        .statement st :: ss.map .statement := by
      rw [Node.children, ← List.map_drop, hss]
      rfl
    obtain ⟨hnode, -⟩ := Place.node?_below_of_drop hn hdrop
    have hrest : program.drop (i + 1) = ss := by
      rw [← List.drop_drop, hss]
      rfl
    refine .bind ((preserved g reading n).execute hnode hh hf.left hp.1) ?_
    intro _ s₁ hl₁ _
    have hfr : Noted g (Stmt.findingsAll false (st.findings false []).2 ss).1 := hf.right
    rw [st.scopes_top hp.1] at hfr
    have hh₁ := hh.later hl₁
    exact ih hrest ⟨hh₁.mirrors, hh₁.unready⟩ hfr hp.2

end LoxLang.Traced
