import LoxLang.Proofs.Machine.Steps
import LoxLang.Proofs.Traced.Nesting

/-!
What single steps keep.

A computation keeps the nesting of frames if at every moment it comes by the frames mirror the place
(`Mirrored`), if it leaves sound values and the active frame as it was, and if a name that it finds
not declared is global or within its own initializer (`Excused`).  There is one rule for computations
one after the other (`Keeps.bind`), and one for each step.
-/

namespace LoxLang.Traced

variable {α β : Type}

section

variable (g : Ground)

/-- The node is at its place, the frames are nested as the place is, and a reference with a distance
has a frame at that distance. -/
structure Mirrored (v : Visit) : Prop where
  node : v.place.node? g.programs = some v.node
  nested : Nested v.state.heap v.state.machine.active (v.place.enclosing g.programs)
  found : ∀ use, v.node.reference? = some use → ∀ d, g.locals[use.id]? = some d →
    d < (v.place.enclosing g.programs).length ∧
      (v.state.machine.store.ancestor? v.state.machine.active d).isSome

/-- If a name is not declared, then that was found at a reference, which is global, or else within
the initializer of its own variable; a read is then in a function there, if programs are clean. -/
def Excused (e : Raised) : Prop :=
  ∀ d name, e.stop = .fault d → d.cause = .notDeclared name →
    ∃ node use, e.place.node? g.programs = some node ∧ node.reference? = some use ∧
      use.name.lexeme = name ∧ d = .atToken (.notDeclared name) use.name ∧
      ∀ distance, g.locals[use.id]? = some distance →
        Initializing g.programs e.place distance name ∧
          (g.clean → use.isAssignment = false → 0 < distance)

structure Later (s t : State) : Prop where
  sound : Sound g t.heap
  grows : Grows s.heap t.heap
  active : t.machine.active = s.machine.active

def Keeps (x : Traced α) (s : State) (good : α → Heap → Prop) : Prop :=
  Sound g s.heap → (∀ v ∈ (x s).1, Mirrored g v) ∧
    (x s).2.Meets (fun a t => Later g s t ∧ good a t.heap)
      (fun e t => Later g s t ∧ Excused g e) True

/-- Before the node at `p` is evaluated: the frames mirror the place, and the names that are not
ready are being initialized. -/
structure Here (p : Place) (scopes : Scopes) (s : State) : Prop where
  mirrors : Mirrors s.heap s.machine.active (p.enclosing g.programs) scopes
  unready : Unready g.programs p scopes

end

variable {g : Ground} {x : Traced α} {s t u : State} {good : α → Heap → Prop} {p : Place}
  {scopes : Scopes} {node : Node}

theorem Later.refl (hs : Sound g s.heap) : Later g s s := ⟨hs, .refl _, rfl⟩

theorem Later.trans (h : Later g s t) (h' : Later g t u) : Later g s u :=
  ⟨h'.sound, h.grows.trans h'.grows, h'.active.trans h.active⟩

theorem Later.mirrors (h : Later g s t) {places : List Place}
    (hm : Mirrors s.heap s.machine.active places scopes) :
    Mirrors t.heap t.machine.active places scopes :=
  h.active ▸ hm.grows h.grows

theorem Here.later (h : Here g p scopes s) (hl : Later g s t) : Here g p scopes t :=
  ⟨hl.mirrors h.mirrors, h.unready⟩

theorem Here.below (h : Here g p scopes s) (hn : p.node? g.programs = some node)
    (ho : node.opensScope = false) (i : Nat) : Here g (p.below i) scopes s :=
  ⟨Place.enclosing_below hn ho i ▸ h.mirrors, h.unready.below hn ho i⟩

/-! ## One computation after another -/

theorem Keeps.pure {a : α} (h : good a s.heap) : Keeps g (Pure.pure a) s good :=
  fun hs => ⟨fun _ hv => (List.not_mem_nil hv).elim, .refl hs, h⟩

theorem Keeps.outOfSteps : Keeps g outOfSteps s good :=
  fun _ => ⟨fun _ hv => (List.not_mem_nil hv).elim, trivial⟩

theorem Keeps.mono (h : Keeps g x s good) {good' : α → Heap → Prop}
    (hg : ∀ a t, Later g s t → good a t.heap → good' a t.heap) : Keeps g x s good' :=
  fun hs => ⟨(h hs).1, (h hs).2.mono (fun a t ha => ⟨ha.1, hg a t ha.1 ha.2⟩) (fun _ _ => id) id⟩

theorem Keeps.bind {k : α → Traced β} {good' : β → Heap → Prop} (hx : Keeps g x s good)
    (hk : ∀ a t, Later g s t → good a t.heap → Keeps g (k a) t good') :
    Keeps g (x >>= k) s good' := by
  intro hs
  obtain ⟨hvisits, hx⟩ := hx hs
  show (∀ v ∈ (Traced.bind x k s).1, Mirrored g v) ∧ (Traced.bind x k s).2.Meets _ _ _
  unfold Traced.bind
  cases he : x s with
  | mk visits o =>
    rw [he] at hvisits hx
    cases o with
    | ok a t =>
      obtain ⟨hlater, hgood⟩ := hx
      obtain ⟨hvisits', hrest⟩ := hk a t hlater hgood hlater.sound
      refine ⟨fun v hv => (List.mem_append.1 hv).elim (hvisits v) (hvisits' v), ?_⟩
      exact hrest.mono (fun _ _ hb => ⟨hlater.trans hb.1, hb.2⟩)
        (fun _ _ hb => ⟨hlater.trans hb.1, hb.2⟩) id
    | error e t => exact ⟨hvisits, hx⟩
    | exhausted => exact ⟨hvisits, trivial⟩

/-! ## Moments -/

/-- An expression that is a reference has its distance in the table. -/
theorem Noted.reference {e : Expr} (hn : Noted g (e.findings scopes)) {use : Reference}
    (hu : (Node.expression e).reference? = some use) :
    g.locals[use.id]? = scopes.distance? use.name.lexeme := by
  cases e with
  | read id name =>
    cases hu
    exact hn.right.recorded.reference.2
  | assign id name value =>
    cases hu
    exact hn.right.recorded.reference.2
  | _ => cases hu

theorem Keeps.visit (h : Here g p scopes s) (hn : p.node? g.programs = some node)
    (hr : ∀ use, node.reference? = some use →
      g.locals[use.id]? = scopes.distance? use.name.lexeme) :
    Keeps g (visit p node) s fun _ _ => True := by
  refine fun hs => ⟨fun v hv => ?_, .refl hs, trivial⟩
  cases List.mem_singleton.1 hv
  refine ⟨hn, h.mirrors.nested, fun use hu d hd => ?_⟩
  rw [hr use hu] at hd
  obtain ⟨hlt, -⟩ := Scopes.ready?_of_distance? hd
  obtain ⟨f, hf, -⟩ := h.mirrors.ancestor? hlt
  exact ⟨h.mirrors.length_eq ▸ hlt, Option.isSome_iff_exists.2 ⟨f, hf⟩⟩

/-! ## Steps that leave the frames alone -/

theorem keeps_step {x : RunOver Kept α} :
    Keeps g (step p x) s good ↔ (Sound g s.heap → (x s.machine).Meets
      (fun a m => Later g s { s with machine := m } ∧ good a ⟨m.store, s.maker⟩)
      (fun e m => Later g s { s with machine := m } ∧ Excused g ⟨e, p⟩) True) := by
  refine imp_congr_right fun _ => ?_
  rw [step]
  cases x s.machine <;>
    exact ⟨And.right, fun h => ⟨fun _ hv => (List.not_mem_nil hv).elim, h⟩⟩

/-- A step that changes neither the frames nor which of them is active. -/
theorem Keeps.quiet {x : RunOver Kept α}
    (h : Sound g s.heap → (x s.machine).Meets
      (fun a m => (m.store = s.machine.store ∧ m.active = s.machine.active) ∧ good a s.heap)
      (fun e m => (m.store = s.machine.store ∧ m.active = s.machine.active) ∧ Excused g ⟨e, p⟩)
      True) : Keeps g (step p x) s good := by
  refine keeps_step.2 fun hs => ?_
  have hlater : ∀ m : Machine Kept, m.store = s.machine.store ∧ m.active = s.machine.active →
      Heap.mk m.store s.maker = s.heap ∧ Later g s { s with machine := m } := by
    rintro m ⟨hstore, hactive⟩
    have heap : Heap.mk m.store s.maker = s.heap := by rw [hstore, State.heap]
    exact ⟨heap, ⟨(heap ▸ hs : Sound g ⟨m.store, s.maker⟩),
      (heap ▸ .refl _ : Grows s.heap ⟨m.store, s.maker⟩), hactive⟩⟩
  refine (h hs).mono (fun a m hm => ?_) (fun e m hm => ⟨(hlater m hm.1).2, hm.2⟩) id
  exact ⟨(hlater m hm.1).2, (hlater m hm.1).1 ▸ hm.2⟩

/-- A fault that is not about a name. -/
theorem excused_of_nameless {cause : Cause} {token : Token} (h : ∀ name, cause ≠ .notDeclared name) :
    Excused g ⟨.fault (.atToken cause token), p⟩ := by
  intro d name hd hcause
  cases hd
  exact absurd hcause (h name)

theorem Keeps.fault {cause : Cause} (h : ∀ name, cause ≠ .notDeclared name) (token : Token) :
    Keeps g (step p (Run.fault cause token)) s good :=
  .quiet fun _ => ⟨⟨rfl, rfl⟩, excused_of_nameless h⟩

theorem Keeps.conclude (operator : Token) {verdict : Run.Verdict} (h : verdict.Nameless) :
    Keeps g (step p (Run.conclude operator verdict)) s fun v h => SoundValue g h v := by
  cases verdict with
  | value c => exact .quiet fun _ => ⟨⟨rfl, rfl⟩, .ofConstant _ c⟩
  | fault cause =>
    refine .fault (fun name hc => ?_) operator
    rw [hc] at h
    exact h
  | malformed => exact .quiet fun _ => ⟨⟨rfl, rfl⟩, fun _ _ hd => nomatch hd⟩

theorem Keeps.applyUnary (operator : Token) (v : Value Kept) :
    Keeps g (step p (Run.applyUnary operator v)) s fun v h => SoundValue g h v := by
  obtain ⟨verdict, hnameless, happly⟩ := Run.exists_applyUnary_eq operator v
  rw [happly]
  exact .conclude operator hnameless

theorem Keeps.applyBinary (operator : Token) (a b : Value Kept) :
    Keeps g (step p (Run.applyBinary operator a b)) s fun v h => SoundValue g h v := by
  obtain ⟨verdict, hnameless, happly⟩ := Run.exists_applyBinary_eq operator a b
  rw [happly]
  exact .conclude operator hnameless

theorem Keeps.print (line : String) : Keeps g (step p (Run.print line)) s fun _ _ => True :=
  .quiet fun _ => ⟨⟨rfl, rfl⟩, trivial⟩

theorem Keeps.readClock (reading : Nat → Except String Float) (paren : Token) :
    Keeps g (step p (Traced.readClock reading paren)) s fun v h => SoundValue g h v := by
  refine .quiet fun _ => ?_
  rw [Traced.readClock]
  cases reading s.machine.nativeCalls with
  | ok x => exact ⟨⟨rfl, rfl⟩, trivial⟩
  | error message => exact ⟨⟨rfl, rfl⟩, excused_of_nameless (by simp)⟩

/-- A new function; nothing refers to it yet. -/
theorem Keeps.closure (name : Option String) (params : List Token) (body : List Stmt) :
    Keeps g (step p (Traced.closure p name params body)) s fun v h => h = s.heap ∧
      ∃ identity, v = .callable identity (.closure name params body ⟨s.machine.active, p⟩) :=
  .quiet fun _ => ⟨⟨rfl, rfl⟩, rfl, _, rfl⟩

/-! ## Variables -/

theorem Sound.get? {h : Heap} (hs : Sound g h) {f : FrameId} {name : String} {v : Value Kept}
    (hv : h.store.get? f name = some v) : SoundValue g h v :=
  let ⟨_, _, hread⟩ := Option.bind_eq_some_iff.1 hv
  hs.values _ _ _ hread

theorem Sound.getAt? {h : Heap} (hs : Sound g h) {f : FrameId} {d : Nat} {name : String}
    {v : Value Kept} (hv : h.store.getAt? f d name = some v) : SoundValue g h v :=
  let ⟨_, _, hread⟩ := Option.bind_eq_some_iff.1 hv
  hs.values _ _ _ hread

/-- If the frame at the distance of a name does not bind it, the place is within its initializer. -/
theorem Here.initializing (h : Here g p scopes s) {name : String} {d : Nat}
    (hd : scopes.distance? name = some d)
    (hunbound : ∀ f, s.machine.store.ancestor? s.machine.active d = some f →
      s.machine.store.binds f name = false) :
    scopes.ready? d name = some false ∧ Initializing g.programs p d name := by
  obtain ⟨hlt, ready, hready⟩ := Scopes.ready?_of_distance? hd
  obtain ⟨f, hf, hb⟩ := h.mirrors.ancestor? hlt
  cases ready with
  | false => exact ⟨hready, h.unready d name hready⟩
  | true => exact (Bool.false_ne_true ((hunbound f hf).symm.trans (hb name hready))).elim

/-- Without faults, a name that is read is ready in the innermost scope, if it is declared there. -/
theorem ready_of_faultless {name : Token} (h : resolutionFaults (scopes.readFaults name) = [])
    (hready : scopes.ready? 0 name.lexeme = some false) : False := by
  cases scopes with
  | nil => cases hready
  | cons scope scopes =>
    have hfalse : scope.ready? name.lexeme = some false := hready
    rw [Scopes.readFaults, if_pos hfalse] at h
    cases h

theorem Keeps.readVariable {id : NodeId} {name : Token} (h : Here g p scopes s)
    (hn : p.node? g.programs = some (.expression (.read id name)))
    (hf : Noted g (Expr.findings scopes (.read id name))) (host : Host) :
    Keeps g (step p (Run.readVariable ⟨host, g.locals⟩ id name)) s fun v h => SoundValue g h v := by
  have href : g.locals[id]? = scopes.distance? name.lexeme := hf.right.recorded.reference.2
  have hexcused : (∀ d, g.locals[id]? = some d →
      scopes.ready? d name.lexeme = some false ∧ Initializing g.programs p d name.lexeme) →
      Excused g ⟨.fault (.atToken (.notDeclared name.lexeme) name), p⟩ := by
    intro hinit d other hd hcause
    cases hd
    cases hcause
    refine ⟨_, _, hn, rfl, rfl, rfl, fun distance hdistance => ?_⟩
    obtain ⟨hready, hinitializing⟩ := hinit distance hdistance
    refine ⟨hinitializing, fun hclean _ => Nat.pos_of_ne_zero fun hzero => ?_⟩
    rw [hzero] at hready
    exact ready_of_faultless (hf.left.faultless hclean) hready
  refine .quiet fun hs => ?_
  rw [Run.readVariable]
  cases hlocal : g.locals[id]? with
  | none =>
    show (Run.declaredOr name (s.machine.store.get? Store.globalFrame name.lexeme) _).Meets _ _ _
    cases hv : s.machine.store.get? Store.globalFrame name.lexeme with
    | some v => exact ⟨⟨rfl, rfl⟩, hs.get? hv⟩
    | none => exact ⟨⟨rfl, rfl⟩, hexcused fun d hd => nomatch hlocal.symm.trans hd⟩
  | some d =>
    show (Run.declaredOr name (s.machine.store.getAt? s.machine.active d name.lexeme) _).Meets _ _ _
    cases hv : s.machine.store.getAt? s.machine.active d name.lexeme with
    | some v => exact ⟨⟨rfl, rfl⟩, hs.getAt? hv⟩
    | none =>
      refine ⟨⟨rfl, rfl⟩, hexcused fun d' hd' => ?_⟩
      cases hlocal.symm.trans hd'
      refine h.initializing (href.symm.trans hlocal) fun f hf => ?_
      rw [Store.getAt?, hf] at hv
      rw [Store.binds_eq_isSome, show s.machine.store.read? f name.lexeme = none from hv]
      rfl

theorem Keeps.define {name : String} {v : Value Kept}
    (hv : SoundValue g (s.heap.define s.machine.active name v) v) :
    Keeps g (step p (Run.define name v)) s fun _ h => h = s.heap.define s.machine.active name v :=
  fun hs => ⟨fun _ hv => (List.not_mem_nil hv).elim,
    ⟨hs.define s.machine.active name hv, grows_define _ _ _ _, rfl⟩, rfl⟩

theorem Keeps.assignVariable {id : NodeId} {name : Token} {value : Expr} {v : Value Kept}
    (h : Here g p scopes s)
    (hn : p.node? g.programs = some (.expression (.assign id name value)))
    (hf : Noted g (Expr.findings scopes (.assign id name value))) (host : Host)
    (hv : SoundValue g s.heap v) :
    Keeps g (step p (Run.assignVariable ⟨host, g.locals⟩ id name v)) s fun _ _ => True := by
  have href : g.locals[id]? = scopes.distance? name.lexeme := hf.right.recorded.reference.2
  refine keeps_step.2 fun hs => ?_
  rw [Run.assignVariable]
  cases howner : Run.owner? ⟨host, g.locals⟩ s.machine id name.lexeme with
  | some f =>
    exact ⟨⟨hs.define f name.lexeme (hv.grows (grows_define _ _ _ _)), grows_define _ _ _ _, rfl⟩,
      trivial⟩
  | none =>
    refine ⟨.refl hs, ?_⟩
    intro d other hd hcause
    cases hd
    cases hcause
    refine ⟨_, _, hn, rfl, rfl, rfl, fun distance hdistance => ⟨?_, fun _ h => nomatch h⟩⟩
    refine (h.initializing (href.symm.trans hdistance) fun f hf => ?_).2
    rw [Run.owner?, hdistance] at howner
    have hnone : (some f).filter (fun f => s.machine.store.binds f name.lexeme) = none :=
      hf ▸ howner
    refine Bool.eq_false_iff.2 fun hb => ?_
    rw [Option.filter_some, if_pos hb] at hnone
    cases hnone

/-! ## Frames and calls -/

theorem Keeps.newFrame (maker : Place) (f : FrameId) {bindings : List (String × Value Kept)}
    (hb : ∀ b ∈ bindings, SoundValue g s.heap b.2) :
    Keeps g (newFrame maker f bindings) s fun a h =>
      a = s.heap.store.nextFrame ∧ h = s.heap.push maker f bindings :=
  fun hs => ⟨fun _ hv => (List.not_mem_nil hv).elim,
    ⟨hs.push maker f hb, grows_push _ _ _ _, rfl⟩, rfl, rfl⟩

theorem Keeps.newInnerFrame (maker : Place) :
    Keeps g (newInnerFrame maker) s fun a h =>
      a = s.heap.store.nextFrame ∧ h = s.heap.push maker s.machine.active [] :=
  fun hs => Keeps.newFrame maker s.machine.active (fun _ hb => (List.not_mem_nil hb).elim) hs

theorem Keeps.inFrame {f : FrameId}
    (h : Keeps g x { s with machine := { s.machine with active := f } } good) :
    Keeps g (inFrame f x) s good := by
  intro hs
  obtain ⟨hvisits, hx⟩ := h hs
  refine ⟨hvisits, ?_⟩
  unfold Traced.inFrame
  dsimp only
  cases ho : (x { s with machine := { s.machine with active := f } }).2 with
  | ok a t =>
    rw [ho] at hx
    exact ⟨⟨hx.1.sound, hx.1.grows, rfl⟩, hx.2⟩
  | error e t =>
    rw [ho] at hx
    exact ⟨⟨hx.1.sound, hx.1.grows, rfl⟩, hx.2⟩
  | exhausted => trivial

theorem Keeps.inCall {paren : Token}
    (h : Keeps g x { s with machine := { s.machine with depth := s.machine.depth + 1 } } good) :
    Keeps g (inCall p paren x) s good := by
  by_cases hdeep : maxCallDepth ≤ s.machine.depth
  · have hfault : Traced.inCall p paren x s =
        step p (Run.fault (.callsTooDeep maxCallDepth) paren) s := by
      rw [Traced.inCall, if_pos hdeep]
    intro hs
    rw [hfault]
    exact Keeps.fault (fun _ hc => Cause.noConfusion hc) paren hs
  · intro hs
    obtain ⟨hvisits, hx⟩ := h hs
    rw [Traced.inCall, if_neg hdeep]
    refine ⟨hvisits, ?_⟩
    dsimp only
    cases ho : (x { s with machine := { s.machine with depth := s.machine.depth + 1 } }).2 with
    | ok a t =>
      rw [ho] at hx
      exact ⟨⟨hx.1.sound, hx.1.grows, hx.1.active⟩, hx.2⟩
    | error e t =>
      rw [ho] at hx
      exact ⟨⟨hx.1.sound, hx.1.grows, hx.1.active⟩, hx.2⟩
    | exhausted => trivial

end LoxLang.Traced
