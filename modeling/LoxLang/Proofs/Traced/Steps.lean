import LoxLang.Proofs.Traced.Related

/-!
Single steps, traced and plain.

`Follows` says that from machines that correspond, a traced computation and a plain one end alike, and
with machines that correspond.  Computations one after the other follow each other if their parts do;
what is left are the single steps.
-/

namespace LoxLang.Traced

section

variable (r : Nat → Token → Token → Prop) (q : NodeId → NodeId → Prop) (printed : Array String)

/-- Both end alike from machines that correspond. -/
def Follows {α β : Type} (x : Traced α) (y : Run β) (same : α → β → Prop) : Prop :=
  ∀ s m, SameState r q printed s m →
    (x.outcome s).Matches (y m) (fun a s b m => SameState r q printed s m ∧ same a b)
      fun e s e' m => SameStop r e e' ∧ SameState r q printed s m

end

variable {r : Nat → Token → Token → Prop} {q : NodeId → NodeId → Prop} {printed : Array String}
  {α β γ δ : Type} {same : α → β → Prop} {same' : γ → δ → Prop} {s : State} {m : Machine}
  {v : Value Kept} {v' : Value} {p : Place} {t t' : Token}

/-! ## Computations one after the other -/

theorem Follows.bind {x : Traced α} {y : Run β} {f : α → Traced γ} {g : β → Run δ}
    (h : Follows r q printed x y same)
    (hk : ∀ a b, same a b → Follows r q printed (f a) (g b) same') :
    Follows r q printed (x >>= f) (y >>= g) same' := by
  intro s m hs
  rw [outcome_bind]
  refine Action.matches_bind (h s m hs) ?_
  rintro a s' b m' ⟨hs', hab⟩
  exact hk a b hab s' m' hs'

theorem Follows.pure {a : α} {b : β} (h : same a b) :
    Follows r q printed (Pure.pure a) (Pure.pure b) same :=
  fun _ _ hs => ⟨hs, h⟩

/-- A moment that is noted changes nothing. -/
theorem Follows.visit {node : Node} {x : Traced α} {y : Run β} (h : Follows r q printed x y same) :
    Follows r q printed (Traced.visit p node >>= fun _ => x) y same := by
  intro s m hs
  rw [outcome_bind]
  exact h s m hs

/-! ## Steps of the machine -/

theorem matches_step {x : RunOver Kept α} {o : Outcome Stop Machine β}
    {good : α → State → β → Machine → Prop} {bad : Raised → State → Stop → Machine → Prop} :
    ((step p x).outcome s).Matches o good bad ↔
      (x s.machine).Matches o (fun a m' => good a { s with machine := m' })
        fun e m' => bad ⟨e, p⟩ { s with machine := m' } := by
  rw [outcome, step]
  cases x s.machine <;> cases o <;> exact Iff.rfl

theorem follows_fault {same : α → β → Prop} (cause : Cause) (ht : r p.program t t') :
    Follows r q printed (step p (Run.fault cause t)) (Run.fault cause t') same :=
  fun _ _ hs => ⟨.fault ht, hs⟩

theorem follows_conclude (verdict : Run.Verdict) (ht : r p.program t t') :
    Follows r q printed (step p (Run.conclude t verdict)) (Run.conclude t' verdict)
      (SameValue r q) := by
  intro s m hs
  cases verdict with
  | value c => exact ⟨hs, .ofConstant c⟩
  | fault cause => exact ⟨.fault ht, hs⟩
  | malformed => exact ⟨.malformed ht, hs⟩

section

variable (hr : ∀ k t t', r k t t' → t.kind = t'.kind ∧ t.lexeme = t'.lexeme)

include hr

theorem follows_applyUnary (ht : r p.program t t') (hv : SameValue r q v v') :
    Follows r q printed (step p (Run.applyUnary t v)) (Run.applyUnary t' v') (SameValue r q) := by
  obtain ⟨verdict, -, hx, hy⟩ := Run.applyUnary_verdict (hr _ _ _ ht).1 hv.similar
  rw [hx, hy]
  exact follows_conclude verdict ht

theorem follows_applyBinary {a b : Value Kept} {a' b' : Value} (ht : r p.program t t')
    (ha : SameValue r q a a') (hb : SameValue r q b b') :
    Follows r q printed (step p (Run.applyBinary t a b)) (Run.applyBinary t' a' b')
      (SameValue r q) := by
  obtain ⟨verdict, -, hx, hy⟩ := Run.applyBinary_verdict (hr _ _ _ ht).1 ha.similar hb.similar
  rw [hx, hy]
  exact follows_conclude verdict ht

/-! ## Variables -/

theorem follows_declaredOr {o : Option (Value Kept)} {o' : Option Value}
    (hs : SameState r q printed s m) (ht : r p.program t t') (ho : Option.Rel (SameValue r q) o o') :
    (Run.declaredOr t o s.machine).Matches (Run.declaredOr t' o' m)
      (fun a m' b n => SameState r q printed { s with machine := m' } n ∧ SameValue r q a b)
      fun e m' e' n => SameStop r ⟨e, p⟩ e' ∧ SameState r q printed { s with machine := m' } n := by
  cases ho with
  | none =>
    refine ⟨?_, hs⟩
    rw [(hr _ _ _ ht).2]
    exact .fault ht
  | some hv => exact ⟨hs, hv⟩

variable {host : Host} {table table' : Locals} {i j : NodeId}

theorem follows_read (hij : table[i]? = table'[j]?) (ht : r p.program t t') :
    Follows r q printed (step p (Run.readVariable ⟨host, table⟩ i t))
      (Run.readVariable ⟨host, table'⟩ j t') (SameValue r q) := by
  intro s m hs
  rw [matches_step]
  simp only [Run.readVariable, hij, ← (hr _ _ _ ht).2, ← hs.active]
  cases table'[j]? with
  | none => exact follows_declaredOr hr hs ht (hs.store.get? _ _)
  | some distance => exact follows_declaredOr hr hs ht (hs.store.getAt? _ _ _)

theorem follows_assign (hij : table[i]? = table'[j]?) (ht : r p.program t t')
    (hv : SameValue r q v v') :
    Follows r q printed (step p (Run.assignVariable ⟨host, table⟩ i t v))
      (Run.assignVariable ⟨host, table'⟩ j t' v') fun _ _ => True := by
  intro s m hs
  have howner : Run.owner? ⟨host, table⟩ s.machine i t.lexeme =
      Run.owner? ⟨host, table'⟩ m j t'.lexeme := by
    simp only [Run.owner?, hij, ← (hr _ _ _ ht).2, ← hs.active, hs.store.owner?_eq,
      hs.store.ownerAt?_eq]
  rw [matches_step, Run.assignVariable, Run.assignVariable, howner]
  cases Run.owner? ⟨host, table'⟩ m j t'.lexeme with
  | none =>
    refine ⟨?_, hs⟩
    rw [(hr _ _ _ ht).2]
    exact .fault ht
  | some f =>
    refine ⟨⟨?_, hs.active, hs.depth, hs.lines, hs.nextCallable, hs.nativeCalls⟩, trivial⟩
    rw [(hr _ _ _ ht).2]
    exact hs.store.define f t'.lexeme hv

end

theorem follows_define (name : String) (hv : SameValue r q v v') :
    Follows r q printed (step p (Run.define name v)) (Run.define name v') fun _ _ => True := by
  intro s m hs
  refine ⟨⟨?_, hs.active, hs.depth, hs.lines, hs.nextCallable, hs.nativeCalls⟩, trivial⟩
  show SameStore r q (s.machine.store.define s.machine.active name v)
    (m.store.define m.active name v')
  rw [hs.active]
  exact hs.store.define m.active name hv

/-! ## Printing, functions and the clock -/

theorem follows_print (line : String) :
    Follows r q printed (step p (Run.print line)) (Run.print line) fun _ _ => True := by
  intro s m hs
  refine ⟨⟨hs.store, hs.active, hs.depth, ?_, hs.nextCallable, hs.nativeCalls⟩, trivial⟩
  show m.lines.push line = printed ++ s.machine.lines.push line
  rw [hs.lines, Array.append_push]

theorem follows_closure {name : Option String} {params params' : List Token}
    {body body' : List Stmt} (hps : List.Forall₂ (r p.program) params params')
    (hb : Stmt.LikeAll (r p.program) q body body') :
    Follows r q printed (step p (closure p name params body)) (Run.closure name params' body')
      (SameValue r q) := by
  intro s m hs
  refine ⟨⟨hs.store, hs.active, hs.depth, hs.lines, congrArg (· + 1) hs.nextCallable,
    hs.nativeCalls⟩, ?_⟩
  rw [← hs.nextCallable, ← hs.active]
  exact .callable (.closure hps hb)

theorem follows_readClock (reading : Nat → Except String Float) (table : Locals) (name : String)
    (values : List Value) (ht : r p.program t t') :
    Follows r q printed (step p (readClock reading t))
      (Run.callNative ⟨Host.timed reading, table⟩ name t' values) (SameValue r q) := by
  intro s m hs
  have hread : SameState r q printed
      { s with machine := { s.machine with nativeCalls := m.nativeCalls + 1 } }
      { m with nativeCalls := m.nativeCalls + 1 } :=
    ⟨hs.store, hs.active, hs.depth, hs.lines, hs.nextCallable, rfl⟩
  rw [matches_step]
  simp only [readClock, Run.callNative, Host.timed, hs.nativeCalls]
  cases reading m.nativeCalls with
  | ok x => exact ⟨hread, .number x⟩
  | error message => exact ⟨.fault ht, hread⟩

/-! ## Frames and calls -/

theorem follows_newFrame (maker : Place) (f : FrameId) (names : List String)
    {values : List (Value Kept)} {values' : List Value} (hvs : SameValues r q values values') :
    Follows r q printed (newFrame maker f (names.zip values))
      (Run.newFrame f (names.zip values')) Eq :=
  fun _ _ hs => ⟨⟨hs.store.push f names hvs, hs.active, hs.depth, hs.lines, hs.nextCallable,
    hs.nativeCalls⟩, hs.store.size⟩

theorem follows_newInnerFrame (maker : Place) :
    Follows r q printed (newInnerFrame maker) Run.newInnerFrame Eq := by
  intro s m hs
  have hplain : Run.newInnerFrame m = Run.newFrame s.machine.active [] m := by
    rw [hs.active]
    rfl
  rw [hplain]
  exact follows_newFrame maker s.machine.active [] .nil s m hs

/-- Ends that correspond do so when what is around them has been left on both sides. -/
theorem matches_left {o : Outcome Raised State α} {o' : Outcome Stop Machine β}
    {leave : State → State} {leave' : Machine → Machine}
    (h : o.Matches o' (fun a s b m => SameState r q printed s m ∧ same a b)
      fun e s e' m => SameStop r e e' ∧ SameState r q printed s m)
    (hleave : ∀ s m, SameState r q printed s m → SameState r q printed (leave s) (leave' m)) :
    (o.mapState leave).Matches (o'.mapState leave')
      (fun a s b m => SameState r q printed s m ∧ same a b)
      fun e s e' m => SameStop r e e' ∧ SameState r q printed s m := by
  refine Outcome.matches_mapState.2 (h.mono ?_ ?_)
  · rintro a s b m ⟨hs, hab⟩
    exact ⟨hleave s m hs, hab⟩
  · rintro e s e' m ⟨he, hs⟩
    exact ⟨he, hleave s m hs⟩

theorem Follows.inFrame {x : Traced α} {y : Run β} (f : FrameId)
    (h : Follows r q printed x y same) :
    Follows r q printed (Traced.inFrame f x) (Run.inFrame f y) same := by
  intro s m hs
  have hinside := h { s with machine := { s.machine with active := f } } { m with active := f }
    ⟨hs.store, rfl, hs.depth, hs.lines, hs.nextCallable, hs.nativeCalls⟩
  rw [Run.inFrame_eq]
  exact matches_left hinside fun s' m' h =>
    ⟨h.store, hs.active, h.depth, h.lines, h.nextCallable, h.nativeCalls⟩

theorem Follows.inCall {x : Traced α} {y : Run β} (ht : r p.program t t')
    (h : Follows r q printed x y same) :
    Follows r q printed (Traced.inCall p t x) (Run.inCall t' y) same := by
  intro s m hs
  rw [Run.inCall_eq, ← hs.depth]
  by_cases hdeep : maxCallDepth ≤ s.machine.depth
  · have htraced : (Traced.inCall p t x).outcome s =
        (step p (Run.fault (.callsTooDeep maxCallDepth) t)).outcome s := by
      rw [outcome, Traced.inCall, if_pos hdeep]
      rfl
    rw [htraced, if_pos hdeep]
    exact follows_fault _ ht s m hs
  · have hinside := h { s with machine := { s.machine with depth := s.machine.depth + 1 } }
      { m with depth := s.machine.depth + 1 }
      ⟨hs.store, hs.active, rfl, hs.lines, hs.nextCallable, hs.nativeCalls⟩
    have htraced : (Traced.inCall p t x).outcome s =
        (x.outcome { s with machine := { s.machine with depth := s.machine.depth + 1 } }).mapState
          fun s' => { s' with machine := { s'.machine with depth := s'.machine.depth - 1 } } := by
      rw [outcome, Traced.inCall, if_neg hdeep]
      rfl
    rw [htraced, if_neg hdeep]
    exact matches_left hinside fun s' m' h =>
      ⟨h.store, h.active, congrArg (· - 1) h.depth, h.lines, h.nextCallable, h.nativeCalls⟩

end LoxLang.Traced
