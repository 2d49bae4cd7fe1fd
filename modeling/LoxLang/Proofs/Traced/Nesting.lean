import LoxLang.Proofs.Machine.Frames
import LoxLang.Proofs.Scope.Ready
import LoxLang.Proofs.Traced.Evaluation

/-!
Frames that mirror the nesting of blocks and functions.

The frames from one outward are those of the blocks and functions around a place, in order, and then
the global frame (`Nested`).  Where a name is ready in a scope, the frame of that scope binds it
(`Mirrors`).  Frames are only added, and names only bound, so what mirrored a place goes on doing so
(`Mirrors.grows`); a function keeps a frame that mirrors the place where it stands (`SoundCallable`).
-/

namespace LoxLang

namespace Traced

/-! ## Frames -/

/-- The frames of a run, and for what they were made. -/
structure Heap where
  store : Store Kept
  maker : FrameId → Option Place

def State.heap (s : State) : Heap := ⟨s.machine.store, s.maker⟩

namespace Heap

def define (h : Heap) (f : FrameId) (name : String) (value : Value Kept) : Heap :=
  { h with store := h.store.define f name value }

def push (h : Heap) (maker : Place) (f : FrameId) (bindings : List (String × Value Kept)) : Heap where
  store := h.store.push f bindings
  maker g := if g = h.store.nextFrame then some maker else h.maker g

end Heap

/-- Later frames: none is lost, and no name that was bound. -/
structure Grows (h h' : Heap) : Prop where
  size : h.store.frames.size ≤ h'.store.frames.size
  enclosing : ∀ f < h.store.frames.size, h'.store.enclosing? f = h.store.enclosing? f
  maker : ∀ f < h.store.frames.size, h'.maker f = h.maker f
  binds : ∀ f name, h.store.binds f name = true → h'.store.binds f name = true

variable {h h' h'' : Heap} {f : FrameId} {place : Place} {places : List Place} {scope : Scope}
  {scopes : Scopes}

theorem Grows.refl (h : Heap) : Grows h h :=
  ⟨Nat.le_refl _, fun _ _ => rfl, fun _ _ => rfl, fun _ _ => id⟩

theorem Grows.trans (hg : Grows h h') (hg' : Grows h' h'') : Grows h h'' where
  size := Nat.le_trans hg.size hg'.size
  enclosing f hf := (hg'.enclosing f (Nat.lt_of_lt_of_le hf hg.size)).trans (hg.enclosing f hf)
  maker f hf := (hg'.maker f (Nat.lt_of_lt_of_le hf hg.size)).trans (hg.maker f hf)
  binds f name hb := hg'.binds f name (hg.binds f name hb)

theorem binds_define_self (hf : f < h.store.frames.size) (name : String) (value : Value Kept) :
    (h.define f name value).store.binds f name = true :=
  (Store.binds_define h.store f f name name value).2 (.inr ⟨rfl, rfl, hf⟩)

theorem grows_define (h : Heap) (f : FrameId) (name : String) (value : Value Kept) :
    Grows h (h.define f name value) where
  size := Nat.le_of_eq (Store.size_define _ _ _ _).symm
  enclosing _ _ := Store.enclosing?_define _ _ _ _ _
  maker _ _ := rfl
  binds g other hb := (Store.binds_define h.store f g name other value).2 (.inl hb)

theorem grows_push (h : Heap) (maker : Place) (f : FrameId)
    (bindings : List (String × Value Kept)) : Grows h (h.push maker f bindings) where
  size := Nat.le_of_lt (Nat.lt_of_lt_of_eq (Nat.lt_succ_self _) (Store.size_push _ _ _).symm)
  enclosing _ hg := (Store.enclosing?_push _ _ _ _).trans (if_neg (Nat.ne_of_lt hg))
  maker _ hg := if_neg (Nat.ne_of_lt hg)
  binds _ _ hb := (Store.binds_push_of_lt (Store.lt_size_of_binds hb)).trans hb

/-! ## Nesting -/

/-- The frames from `f` outward were made for the given blocks and functions, in this order; then
comes the global frame, and nothing else. -/
inductive Nested (h : Heap) : FrameId → List Place → Prop
  | globals : h.store.enclosing? Store.globalFrame = none → Nested h Store.globalFrame []
  | frame {f outer place places} : h.maker f = some place → h.store.enclosing? f = some outer →
      Nested h outer places → Nested h f (place :: places)

/-- The frames are nested as the places are, and bind the names that are ready in the scopes. -/
inductive Mirrors (h : Heap) : FrameId → List Place → Scopes → Prop
  | globals : Store.globalFrame < h.store.frames.size →
      h.store.enclosing? Store.globalFrame = none → Mirrors h Store.globalFrame [] []
  | frame {f outer place places scope scopes} : h.maker f = some place →
      h.store.enclosing? f = some outer →
      (∀ name, scope.ready? name = some true → h.store.binds f name = true) →
      Mirrors h outer places scopes → Mirrors h f (place :: places) (scope :: scopes)

theorem Mirrors.nested (hm : Mirrors h f places scopes) : Nested h f places := by
  induction hm with
  | globals _ ho => exact .globals ho
  | frame hp ho _ _ ih => exact .frame hp ho ih

theorem Mirrors.length_eq (hm : Mirrors h f places scopes) : scopes.length = places.length := by
  induction hm with
  | globals _ _ => rfl
  | frame _ _ _ _ ih => exact congrArg (· + 1) ih

theorem Mirrors.lt_size (hm : Mirrors h f places scopes) : f < h.store.frames.size := by
  cases hm with
  | globals hs _ => exact hs
  | frame _ ho _ _ => exact Store.lt_size_of_enclosing? ho

theorem Mirrors.grows (hm : Mirrors h f places scopes) (hg : Grows h h') :
    Mirrors h' f places scopes := by
  induction hm with
  | globals hs ho => exact .globals (Nat.lt_of_lt_of_le hs hg.size) ((hg.enclosing _ hs).trans ho)
  | frame hp ho hb _ ih =>
    have hf := Store.lt_size_of_enclosing? ho
    exact .frame ((hg.maker _ hf).trans hp) ((hg.enclosing _ hf).trans ho)
      (fun name hr => hg.binds _ _ (hb name hr)) ih

/-- The frame of a scope is found at its distance, and binds the names that are ready there. -/
theorem Mirrors.ancestor? (hm : Mirrors h f places scopes) {d : Nat} (hd : d < scopes.length) :
    ∃ g, h.store.ancestor? f d = some g ∧
      ∀ name, scopes.ready? d name = some true → h.store.binds g name = true := by
  induction hm generalizing d with
  | globals _ _ => exact absurd hd (Nat.not_lt_zero d)
  | @frame f outer place places scope scopes _ ho hb _ ih =>
    cases d with
    | zero => exact ⟨f, rfl, hb⟩
    | succ d =>
      obtain ⟨g, hg, hready⟩ := ih (Nat.lt_of_succ_lt_succ hd)
      exact ⟨g, by rw [Store.ancestor?, ho]; exact hg, hready⟩

/-- Another innermost scope, whose ready names are bound as well. -/
theorem Mirrors.inner (hm : Mirrors h f places (scope :: scopes)) {scope' : Scope}
    (hb : ∀ name, scope'.ready? name = some true → h.store.binds f name = true) :
    Mirrors h f places (scope' :: scopes) := by
  cases hm with
  | frame hp ho _ hrest => exact .frame hp ho hb hrest

theorem Mirrors.binds_inner (hm : Mirrors h f places (scope :: scopes)) {name : String}
    (hr : scope.ready? name = some true) : h.store.binds f name = true := by
  cases hm with
  | frame _ _ hb _ => exact hb name hr

/-- A name that is being declared need not be bound. -/
theorem Mirrors.declare (hm : Mirrors h f places scopes) (name : Token) :
    Mirrors h f places (scopes.declare name) := by
  cases scopes with
  | nil => exact hm
  | cons scope scopes =>
    refine hm.inner fun other hr => ?_
    rw [Scope.ready?_declare] at hr
    by_cases hname : other = name.lexeme
    · rw [if_pos hname] at hr
      cases hr
    · rw [if_neg hname] at hr
      exact hm.binds_inner hr

/-- Once a name is bound it may be ready. -/
theorem Mirrors.bind (hm : Mirrors h f places scopes) {name : Token}
    (hb : h.store.binds f name.lexeme = true) : Mirrors h f places (scopes.bind name) := by
  cases scopes with
  | nil => exact hm
  | cons scope scopes =>
    refine hm.inner fun other hr => ?_
    have hready := (Scopes.ready?_bind_cons scope scopes name).symm.trans hr
    by_cases hname : other = name.lexeme
    · rw [hname]
      exact hb
    · rw [if_neg hname] at hready
      exact hm.binds_inner hready

/-- A name is bound in the innermost frame. -/
theorem Mirrors.define (hm : Mirrors h f places scopes) (name : Token) (value : Value Kept) :
    Mirrors (h.define f name.lexeme value) f places (scopes.bind name) :=
  (hm.grows (grows_define _ _ _ value)).bind (binds_define_self hm.lt_size _ value)

/-- A new frame, for the scope of a block or a function. -/
theorem Mirrors.push (hm : Mirrors h f places scopes) (maker : Place)
    {bindings : List (String × Value Kept)}
    (hb : ∀ name, scope.ready? name = some true → name ∈ bindings.map Prod.fst) :
    Mirrors (h.push maker f bindings) h.store.nextFrame (maker :: places) (scope :: scopes) := by
  refine .frame (if_pos rfl) ((Store.enclosing?_push _ _ _ _).trans (if_pos rfl)) (fun name hr => ?_)
    (hm.grows (grows_push h maker f bindings))
  have hnext : h.store.nextFrame = h.store.frames.size := rfl
  rw [Store.binds_eq_isSome, Store.read?, Heap.push, Store.getElem?_push, if_pos hnext]
  exact Store.isSome_foldl_set (.inl (hb name hr))

/-! ## Values -/

/-- What stays the same while a program is executed. -/
structure Ground where
  programs : List (List Stmt)
  locals : Locals
  nextId : NodeId
  /-- Only programs without faults are executed. -/
  clean : Prop

variable (g : Ground)

/-- The references are in the table, and there are no faults if programs are clean. -/
structure Noted (findings : List Finding) : Prop where
  recorded : Recorded g.locals g.nextId findings
  faultless : g.clean → resolutionFaults findings = []

/-- A program function keeps a frame that mirrors its place. -/
inductive SoundCallable (h : Heap) : Callable Kept → Prop
  | native {name arity} : SoundCallable h (.native name arity)
  | closure {name params body f place node scopes} : place.node? g.programs = some node →
      node.function? = some (params, body) →
      Mirrors h f (place.enclosing g.programs) scopes → Unready g.programs place scopes →
      Noted g (Stmt.findingsAll true (Scopes.parameters ({} :: scopes) params).2 body).1 →
      Stmt.ProperAll body → SoundCallable h (.closure name params body ⟨f, place⟩)

def SoundValue (h : Heap) : Value Kept → Prop
  | .callable _ function => SoundCallable g h function
  | _ => True

/-- The global frame is the outermost one, and all values are sound. -/
structure Sound (h : Heap) : Prop where
  size : Store.globalFrame < h.store.frames.size
  outermost : h.store.enclosing? Store.globalFrame = none
  values : ∀ f name v, h.store.read? f name = some v → SoundValue g h v

variable {g} {v : Value Kept}

theorem Noted.left {xs ys : List Finding} (hn : Noted g (xs ++ ys)) : Noted g xs :=
  ⟨hn.recorded.left, fun hc =>
    (List.append_eq_nil_iff.1 ((List.filterMap_append).symm.trans (hn.faultless hc))).1⟩

theorem Noted.right {xs ys : List Finding} (hn : Noted g (xs ++ ys)) : Noted g ys :=
  ⟨hn.recorded.right, fun hc =>
    (List.append_eq_nil_iff.1 ((List.filterMap_append).symm.trans (hn.faultless hc))).2⟩

theorem SoundValue.grows (hv : SoundValue g h v) (hg : Grows h h') : SoundValue g h' v := by
  cases v with
  | callable identity function =>
    cases hv with
    | native => exact .native
    | closure hn hf hm hu hnoted hp => exact .closure hn hf (hm.grows hg) hu hnoted hp
  | _ => trivial

theorem SoundValue.ofConstant (h : Heap) (c : Constant) : SoundValue g h (.ofConstant c) := by
  cases c <;> trivial

/-- A value is bound that is sound once it is. -/
theorem Sound.define (hs : Sound g h) (f : FrameId) (name : String)
    (hv : SoundValue g (h.define f name v) v) : Sound g (h.define f name v) where
  size := Nat.lt_of_lt_of_eq hs.size (Store.size_define _ _ _ _).symm
  outermost := (Store.enclosing?_define _ _ _ _ _).trans hs.outermost
  values f' name' v' hr := by
    rcases Store.read?_define_cases hr with rfl | hbefore
    · exact hv
    · exact (hs.values f' name' v' hbefore).grows (grows_define h f name v)

theorem Sound.push (hs : Sound g h) (maker : Place) (f : FrameId)
    {bindings : List (String × Value Kept)} (hb : ∀ b ∈ bindings, SoundValue g h b.2) :
    Sound g (h.push maker f bindings) where
  size := Nat.lt_of_lt_of_le hs.size (grows_push h maker f bindings).size
  outermost := ((grows_push h maker f bindings).enclosing _ hs.size).trans hs.outermost
  values f' name v hr := by
    have hgrows := grows_push h maker f bindings
    rcases Store.read?_push_cases hr with ⟨b, hmem, rfl⟩ | hbefore
    · exact (hb b hmem).grows hgrows
    · exact (hs.values f' name v hbefore).grows hgrows

end Traced

end LoxLang
