import LoxLang.Machine.Evaluation
import LoxLang.Proofs.Machine.Frames
import LoxLang.Proofs.Machine.Steps
import LoxLang.Proofs.Syntax.Lawful

/-!
What stops a run.

A fault that stops a run belongs to the phase of runs, whatever the tree and the frames hold.  The
other way to stop, an operator that the machine does not know, comes from an unlawful tree only, and
closures keep trees: so if the tree is lawful and all bodies in the frames are, no such operator is
come by, and the frames stay as they are in this respect (`Orderly`).

Both are shown at once; `strict` says whether lawful trees are asked for.
-/

namespace LoxLang

/-- A function has a lawful body. -/
def Callable.Lawful : Callable → Prop
  | .closure _ _ body _ => Stmt.LawfulAll body
  | .native _ _ => True

def Value.Lawful : Value → Prop
  | .callable _ function => function.Lawful
  | _ => True

def Completion.Lawful : Completion → Prop
  | .normal => True
  | .returned v => v.Lawful

/-- All functions in the frames have lawful bodies. -/
def Machine.Lawful (m : Machine) : Prop := ∀ f name v, m.store.read? f name = some v → v.Lawful

/-- Native functions give lawful values, and fail with faults of the phase of runs. -/
structure Host.Sober (host : Host) : Prop where
  lawful : ∀ name count values v, host.answer name count values = .ok v → v.Lawful
  runtime : ∀ name count values cause, host.answer name count values = .error cause →
    cause.phase = .runtime

theorem Host.sober_timed (reading : Nat → Except String Float) : (Host.timed reading).Sober where
  lawful := by
    intro name count values v h
    simp only [Host.timed] at h
    split at h
    · cases h
      exact trivial
    · cases h
  runtime := by
    intro name count values cause h
    simp only [Host.timed] at h
    split at h
    · cases h
    · cases h
      rfl

/-- A fault of the phase of runs, or else an unknown operator, which strictness excludes. -/
def Stop.Ordinary (strict : Prop) : Stop → Prop
  | .fault d => d.phase = .runtime
  | .malformed _ => ¬ strict

theorem Value.lawful_ofConstant (c : Constant) : (Value.ofConstant c : Value).Lawful := by
  cases c <;> exact trivial

/-! ## Frames -/

namespace Machine

variable {m : Machine}

theorem Lawful.define (h : m.Lawful) (f : FrameId) (name : String) {v : Value} (hv : v.Lawful) :
    Lawful { m with store := m.store.define f name v } := by
  intro g other w hw
  rcases Store.read?_define_cases hw with rfl | hbefore
  · exact hv
  · exact h g other w hbefore

theorem Lawful.push (h : m.Lawful) (f : FrameId) {bindings : List (String × Value)}
    (hb : ∀ b ∈ bindings, b.2.Lawful) : Lawful { m with store := m.store.push f bindings } := by
  intro g name w hw
  rcases Store.read?_push_cases hw with ⟨b, hmem, rfl⟩ | hbefore
  · exact hb b hmem
  · exact h g name w hbefore

theorem Lawful.get? (h : m.Lawful) {f : FrameId} {name : String} {v : Value}
    (hv : m.store.get? f name = some v) : v.Lawful := by
  obtain ⟨owner, -, hread⟩ := Option.bind_eq_some_iff.1 hv
  exact h owner name v hread

theorem Lawful.getAt? (h : m.Lawful) {f : FrameId} {d : Nat} {name : String} {v : Value}
    (hv : m.store.getAt? f d name = some v) : v.Lawful := by
  obtain ⟨frame, -, hread⟩ := Option.bind_eq_some_iff.1 hv
  exact h frame name v hread

/-- Native functions have no body. -/
theorem lawful_start (host : Host) : (Machine.start host : Machine).Lawful := by
  refine start_induction host ?_ fun m name arity h => ?_
  · intro f name v hv
    cases f <;> cases hv
  · have hnative : (Value.callable m.nextCallable (.native name arity) : Value).Lawful := trivial
    exact h.define Store.globalFrame name hnative

end Machine

/-! ## Single steps -/

namespace Run

section

variable (strict : Prop) {α β : Type}

/-- From a machine that is lawful if that is asked for, the computation stops in an ordinary way if it
stops, and gives a good value otherwise; the machine is as before in this respect. -/
def Orderly (x : Run α) (good : α → Prop) : Prop :=
  ∀ m : Machine, (strict → m.Lawful) →
    (x m).Meets (fun a m' => (strict → m'.Lawful) ∧ (strict → good a))
      (fun e m' => (strict → m'.Lawful) ∧ e.Ordinary strict) True

end

variable {strict : Prop} {α β : Type} {good : α → Prop} {good' : β → Prop} {context : Context}

theorem Orderly.pure {a : α} (h : strict → good a) : Orderly strict (Pure.pure a) good :=
  fun _ hm => ⟨hm, h⟩

theorem Orderly.bind {x : Run α} {k : α → Run β} (hx : Orderly strict x good)
    (hk : ∀ a, (strict → good a) → Orderly strict (k a) good') :
    Orderly strict (x >>= k) good' := by
  intro m hm
  refine Action.meets_bind.2 ((hx m hm).mono ?_ (fun _ _ h => h) id)
  rintro a m' ⟨hm', ha⟩
  exact hk a ha m' hm'

theorem orderly_outOfSteps : Orderly strict (Action.outOfSteps : Run α) good :=
  fun _ _ => trivial

theorem orderly_fault {cause : Cause} (hc : cause.phase = .runtime) (token : Token) :
    Orderly strict (fault cause token : Run α) good := fun _ hm => ⟨hm, hc⟩

theorem orderly_declaredOr (name : Token) {o : Option Value} {m : Machine} (hm : strict → m.Lawful)
    (ho : strict → ∀ v ∈ o, v.Lawful) :
    (declaredOr name o m).Meets (fun v m' => (strict → m'.Lawful) ∧ (strict → v.Lawful))
      (fun e m' => (strict → m'.Lawful) ∧ e.Ordinary strict) True := by
  cases o with
  | none => exact ⟨hm, rfl⟩
  | some v => exact ⟨hm, fun hs => ho hs v rfl⟩

theorem orderly_readVariable (id : NodeId) (name : Token) :
    Orderly strict (readVariable context id name) Value.Lawful := by
  intro m hm
  unfold readVariable
  split
  · exact orderly_declaredOr name hm fun hs v hv => (hm hs).getAt? hv
  · exact orderly_declaredOr name hm fun hs v hv => (hm hs).get? hv

theorem orderly_assignVariable (id : NodeId) (name : Token) {v : Value} (hv : strict → v.Lawful) :
    Orderly strict (assignVariable context id name v) fun _ => True := by
  intro m hm
  unfold assignVariable
  split
  · exact ⟨fun hs => (hm hs).define _ _ (hv hs), fun _ => trivial⟩
  · exact ⟨hm, rfl⟩

theorem orderly_define (name : String) {v : Value} (hv : strict → v.Lawful) :
    Orderly strict (define name v) fun _ => True :=
  fun m hm => ⟨fun hs => (hm hs).define m.active name (hv hs), fun _ => trivial⟩

theorem orderly_print (line : String) : Orderly strict (print line : Run Unit) fun _ => True :=
  fun _ hm => ⟨fun hs => hm hs, fun _ => trivial⟩

theorem orderly_closure (name : Option String) (params : List Token) {body : List Stmt}
    (hb : strict → Stmt.LawfulAll body) :
    Orderly strict (closure name params body) Value.Lawful :=
  fun _ hm => ⟨fun hs => hm hs, hb⟩

theorem orderly_newFrame (f : FrameId) {bindings : List (String × Value)}
    (hb : strict → ∀ b ∈ bindings, b.2.Lawful) :
    Orderly strict (newFrame f bindings) fun _ => True :=
  fun _ hm => ⟨fun hs => (hm hs).push f (hb hs), fun _ => trivial⟩

theorem orderly_newInnerFrame : Orderly strict (newInnerFrame : Run FrameId) fun _ => True :=
  fun m hm => orderly_newFrame m.active (fun _ _ hb => (List.not_mem_nil hb).elim) m hm

/-- Which frame is active does not matter. -/
theorem Orderly.inFrame {x : Run α} (hx : Orderly strict x good) (f : FrameId) :
    Orderly strict (inFrame f x) good := by
  intro m hm
  rw [inFrame_eq]
  refine Outcome.meets_mapState.2 ((hx { m with active := f } fun hs => hm hs).mono ?_ ?_ id)
  · exact fun _ _ h => ⟨fun hs => h.1 hs, h.2⟩
  · exact fun _ _ h => ⟨fun hs => h.1 hs, h.2⟩

theorem Orderly.inCall {x : Run α} (hx : Orderly strict x good) (paren : Token) :
    Orderly strict (inCall paren x) good := by
  intro m hm
  rw [inCall_eq]
  split
  · exact ⟨hm, rfl⟩
  refine Outcome.meets_mapState.2 ((hx { m with depth := m.depth + 1 } fun hs => hm hs).mono ?_ ?_ id)
  · exact fun _ _ h => ⟨fun hs => h.1 hs, h.2⟩
  · exact fun _ _ h => ⟨fun hs => h.1 hs, h.2⟩

theorem orderly_callNative (hh : context.host.Sober) (name : String) (paren : Token)
    (values : List Value) : Orderly strict (callNative context name paren values) Value.Lawful := by
  intro m hm
  unfold callNative
  split
  · rename_i v hv
    exact ⟨fun hs => hm hs, fun _ => hh.lawful _ _ _ v hv⟩
  · rename_i cause hc
    exact ⟨fun hs => hm hs, hh.runtime _ _ _ cause hc⟩

/-! ## Operators -/

/-- The machine knows what to do with an operator that the table calls binary. -/
theorem numberOperation?_of_joins {k : Kind} : k.Joins → k = .equals ∨ k = .notEquals ∨ k = .plus ∨
    (numberOperation? k : Option (Float → Float → Value)).isSome = true := by
  cases k <;> decide

theorem orderly_applyUnary {operator : Token} (ho : strict → operator.kind.Prefixes) (v : Value) :
    Orderly strict (applyUnary operator v) Value.Lawful := by
  unfold applyUnary
  split
  · exact .pure fun _ => trivial
  · split
    · exact .pure fun _ => trivial
    · exact orderly_fault rfl operator
  · rename_i hnot hdash
    refine fun m hm => ⟨hm, fun hs => ?_⟩
    exact (ho hs).not_or_dash.elim hnot hdash

theorem orderly_applyBinary {operator : Token} (ho : strict → operator.kind.Joins) (a b : Value) :
    Orderly strict (applyBinary operator a b) Value.Lawful := by
  unfold applyBinary
  split
  · exact .pure fun _ => trivial
  · exact .pure fun _ => trivial
  · split
    · exact .pure fun _ => trivial
    · exact .pure fun _ => trivial
    · exact orderly_fault rfl operator
  · rename_i hequals hnotEquals hplus
    split
    · split
      · rename_i operation hoperation
        obtain ⟨o, ho⟩ := numberOperation?_constant operator.kind
        obtain ⟨constant, -, rfl⟩ := Option.map_eq_some_iff.1 ((ho FrameId).symm.trans hoperation)
        exact .pure fun _ => Value.lawful_ofConstant _
      · rename_i hnone
        refine fun m hm => ⟨hm, fun hs => ?_⟩
        rcases numberOperation?_of_joins (ho hs) with hk | hk | hk | hk
        · exact hequals hk
        · exact hnotEquals hk
        · exact hplus hk
        · rw [hnone] at hk
          cases hk
    · exact orderly_fault rfl operator

/-! ## Evaluation and execution -/

/-- What `n` nested steps do. -/
structure Ordered (strict : Prop) (context : Context) (n : Nat) : Prop where
  evaluate : ∀ e, (strict → e.Lawful) → Orderly strict (evaluate context n e) Value.Lawful
  evaluateAll : ∀ es, (strict → Expr.LawfulAll es) →
    Orderly strict (evaluateAll context n es) fun vs => ∀ v ∈ vs, v.Lawful
  call : ∀ function paren values, (strict → function.Lawful) → (strict → ∀ v ∈ values, v.Lawful) →
    Orderly strict (call context n function paren values) Value.Lawful
  execute : ∀ s, (strict → s.Lawful) → Orderly strict (execute context n s) Completion.Lawful
  executeAll : ∀ ss, (strict → Stmt.LawfulAll ss) →
    Orderly strict (executeAll context n ss) Completion.Lawful
  loop : ∀ condition body, (strict → condition.Lawful) → (strict → body.Lawful) →
    Orderly strict (loop context n condition body) Completion.Lawful

section

variable {n : Nat} (ih : Ordered strict context n)

include ih

theorem Ordered.evaluate_succ (e : Expr) (he : strict → e.Lawful) :
    Orderly strict (Run.evaluate context (n + 1) e) Value.Lawful := by
  cases e with
  | constant c => exact .pure fun _ => Value.lawful_ofConstant c
  | grouping inner => exact ih.evaluate inner he
  | unary operator operand =>
    refine (ih.evaluate operand fun hs => (he hs).2).bind fun v _ => ?_
    exact orderly_applyUnary (fun hs => (he hs).1) v
  | binary left operator right =>
    refine (ih.evaluate left fun hs => (he hs).2.1).bind fun a _ => ?_
    refine (ih.evaluate right fun hs => (he hs).2.2).bind fun b _ => ?_
    exact orderly_applyBinary (fun hs => (he hs).1) a b
  | logical left operator right =>
    refine (ih.evaluate left fun hs => (he hs).1).bind fun a ha => ?_
    split
    · exact .pure ha
    · exact ih.evaluate right fun hs => (he hs).2
  | read id name => exact orderly_readVariable id name
  | assign id name value =>
    refine (ih.evaluate value he).bind fun v hv => ?_
    exact (orderly_assignVariable id name hv).bind fun _ _ => .pure hv
  | call callee paren arguments =>
    refine (ih.evaluate callee fun hs => (he hs).1).bind fun f hf => ?_
    refine (ih.evaluateAll arguments fun hs => (he hs).2).bind fun values hvalues => ?_
    cases f with
    | callable identity function =>
      dsimp only
      split
      · exact ih.call function paren values hf hvalues
      · exact orderly_fault rfl paren
    | _ => exact orderly_fault rfl paren
  | function keyword params body => exact orderly_closure none params he

theorem Ordered.evaluateAll_succ (es : List Expr) (he : strict → Expr.LawfulAll es) :
    Orderly strict (Run.evaluateAll context (n + 1) es) fun vs => ∀ v ∈ vs, v.Lawful := by
  cases es with
  | nil => exact .pure fun _ _ hv => (List.not_mem_nil hv).elim
  | cons e es =>
    refine (ih.evaluate e fun hs => (he hs).1).bind fun v hv => ?_
    refine (ih.evaluateAll es fun hs => (he hs).2).bind fun vs hvs => ?_
    exact .pure fun hs => List.forall_mem_cons.2 ⟨hv hs, hvs hs⟩

theorem Ordered.call_succ (hh : context.host.Sober) (function : Callable) (paren : Token)
    (values : List Value) (hf : strict → function.Lawful) (hv : strict → ∀ v ∈ values, v.Lawful) :
    Orderly strict (Run.call context (n + 1) function paren values) Value.Lawful := by
  cases function with
  | native name arity => exact orderly_callNative hh name paren values
  | closure name params body frame =>
    have hbindings : strict → ∀ b ∈ (params.map (·.lexeme)).zip values, b.2.Lawful :=
      fun hs b hb => hv hs b.2 (List.of_mem_zip hb).2
    refine (orderly_newFrame frame hbindings).bind fun f _ => ?_
    refine (((ih.executeAll body hf).inFrame f).inCall paren).bind fun completion hc => ?_
    cases completion with
    | normal => exact .pure fun _ => trivial
    | returned v => exact .pure hc

theorem Ordered.execute_succ (s : Stmt) (h : strict → s.Lawful) :
    Orderly strict (Run.execute context (n + 1) s) Completion.Lawful := by
  cases s with
  | expression value => exact (ih.evaluate value h).bind fun _ _ => .pure fun _ => trivial
  | print keyword value =>
    refine (ih.evaluate value h).bind fun v _ => ?_
    exact (orderly_print v.display).bind fun _ _ => .pure fun _ => trivial
  | var name initializer =>
    have hdefine : ∀ v : Value, (strict → v.Lawful) →
        Orderly strict (define name.lexeme v >>= fun _ => Pure.pure .normal) Completion.Lawful :=
      fun v hv => (orderly_define name.lexeme hv).bind fun _ _ => .pure fun _ => trivial
    cases initializer with
    | none => exact hdefine .nil fun _ => trivial
    | some value => exact (ih.evaluate value h).bind hdefine
  | block body =>
    exact orderly_newInnerFrame.bind fun f _ => (ih.executeAll body h).inFrame f
  | ifElse condition thenBranch elseBranch =>
    refine (ih.evaluate condition fun hs => (h hs).1).bind fun v _ => ?_
    split
    · exact ih.execute thenBranch fun hs => (h hs).2.1
    · cases elseBranch with
      | none => exact .pure fun _ => trivial
      | some branch => exact ih.execute branch fun hs => (h hs).2.2
  | «while» condition body => exact ih.loop condition body (fun hs => (h hs).1) fun hs => (h hs).2
  | function name params body =>
    refine (orderly_closure (some name.lexeme) params h).bind fun f hf => ?_
    exact (orderly_define name.lexeme hf).bind fun _ _ => .pure fun _ => trivial
  | «return» keyword value =>
    cases value with
    | none => exact .pure fun _ => trivial
    | some value => exact (ih.evaluate value h).bind fun v hv => .pure hv

theorem Ordered.executeAll_succ (ss : List Stmt) (h : strict → Stmt.LawfulAll ss) :
    Orderly strict (Run.executeAll context (n + 1) ss) Completion.Lawful := by
  cases ss with
  | nil => exact .pure fun _ => trivial
  | cons s ss =>
    refine (ih.execute s fun hs => (h hs).1).bind fun completion hc => ?_
    cases completion with
    | normal => exact ih.executeAll ss fun hs => (h hs).2
    | returned v => exact .pure hc

theorem Ordered.loop_succ (condition : Expr) (body : Stmt) (hcondition : strict → condition.Lawful)
    (hbody : strict → body.Lawful) :
    Orderly strict (Run.loop context (n + 1) condition body) Completion.Lawful := by
  refine (ih.evaluate condition hcondition).bind fun v _ => ?_
  split
  · refine (ih.execute body hbody).bind fun completion hc => ?_
    cases completion with
    | normal => exact ih.loop condition body hcondition hbody
    | returned v => exact .pure hc
  · exact .pure fun _ => trivial

end

theorem ordered (hh : context.host.Sober) (n : Nat) : Ordered strict context n := by
  induction n with
  | zero =>
    exact ⟨fun _ _ => orderly_outOfSteps, fun _ _ => orderly_outOfSteps,
      fun _ _ _ _ _ => orderly_outOfSteps, fun _ _ => orderly_outOfSteps,
      fun _ _ => orderly_outOfSteps, fun _ _ _ _ => orderly_outOfSteps⟩
  | succ n ih =>
    exact ⟨ih.evaluate_succ, ih.evaluateAll_succ, ih.call_succ hh, ih.execute_succ,
      ih.executeAll_succ, ih.loop_succ⟩

/-- Executing a program, to its end or not, stops in an ordinary way, and leaves the frames lawful. -/
theorem orderly_executeProgram (hh : context.host.Sober) (n : Nat) (ss : List Stmt)
    (h : strict → Stmt.LawfulAll ss) :
    Orderly strict (executeProgram context n ss) fun _ => True := by
  induction ss with
  | nil => exact .pure fun _ => trivial
  | cons s ss ih =>
    refine ((ordered hh n).execute s fun hs => (h hs).1).bind fun _ _ => ?_
    exact ih fun hs => (h hs).2

end Run

end LoxLang
