import LoxLang.Proofs.Lexical.State
import LoxLang.Proofs.Outcome

/-!
The single steps on frames and on cells.

`Simulates` says of two computations that from related machines they come to an end alike, and to
related machines again, in a world to which the world has grown; what they give is related there too.
A variable that the resolution has found is read and assigned in the same way on both sides, since
its distance leads to the frame that has its cell.
-/

namespace LoxLang.Lexical

section

variable (table : Locals) (bound : NodeId)

/-- From related machines, `x` and `y` end alike, and with related machines. -/
def Simulates {α β : Type} (w : World) (f : FrameId) (filling : Option FrameId)
    (x : LoxLang.Run α) (y : Run β) (same : World → α → β → Prop) : Prop :=
  ∀ m r, Related table bound w f m r →
    (x m).Agrees (y r)
      (fun a m b r => ∃ w', w.Grows filling w' ∧ Related table bound w' f m r ∧ same w' a b)
      fun m r => ∃ w', w.Grows filling w' ∧ Related table bound w' f m r

end

variable {table : Locals} {bound : NodeId} {α β γ δ : Type} {w w' : World} {f g : FrameId}
  {filling : Option FrameId} {same : World → α → β → Prop} {same' : World → γ → δ → Prop}
  {scopes : Scopes} {env : Surroundings} {m : LoxLang.Machine} {r : Machine} {v : Value}
  {v' : Value Surroundings}

/-! ## Computations one after the other -/

theorem Simulates.bind {x : LoxLang.Run α} {y : Run β} {k : α → LoxLang.Run γ} {l : β → Run δ}
    (h : Simulates table bound w f filling x y same)
    (hk : ∀ w' a b, w.Grows filling w' → same w' a b →
      Simulates table bound w' f filling (k a) (l b) same') :
    Simulates table bound w f filling (x >>= k) (y >>= l) same' := by
  intro m r hr
  refine Action.agrees_bind (h m r hr) ?_
  rintro a m' b r' ⟨w', hw, hr', hs⟩
  refine (hk w' a b hw hs m' r' hr').mono ?_ ?_
  · rintro c m'' d r'' ⟨w'', hw', hr'', hs'⟩
    exact ⟨w'', hw.trans hw', hr'', hs'⟩
  · rintro m'' r'' ⟨w'', hw', hr''⟩
    exact ⟨w'', hw.trans hw', hr''⟩

theorem Simulates.pure {a : α} {b : β} (h : same w a b) :
    Simulates table bound w f filling (Pure.pure a) (Pure.pure b) same :=
  fun _ _ hr => ⟨w, .refl filling w, hr, h⟩

theorem Simulates.fault (cause : Cause) (token : Token) :
    Simulates table bound w f filling (Run.fault cause token) (Run.fault cause token) same :=
  fun _ _ hr => ⟨rfl, w, .refl filling w, hr⟩

/-- Filling a new frame fills none of the old ones. -/
theorem Simulates.fresh {x : LoxLang.Run α} {y : Run β}
    (h : Simulates table bound w f (some w.size) x y same) :
    Simulates table bound w f none x y same := by
  intro m r hr
  refine (h m r hr).mono ?_ ?_
  · rintro a m' b r' ⟨w', hw, hr', hs⟩
    exact ⟨w', hw.fresh (Nat.le_refl _), hr', hs⟩
  · rintro m' r' ⟨w', hw, hr'⟩
    exact ⟨w', hw.fresh (Nat.le_refl _), hr'⟩

/-! ## Reading and assigning -/

theorem simulates_declaredOr {name : Token} {o : Option Value}
    {o' : Option (Value Surroundings)} (h : Related table bound w f m r)
    (hv : Option.Rel (SameValue table bound w) o o') :
    (Run.declaredOr name o m).Agrees (Run.declaredOr name o' r)
      (fun a m b r => ∃ w', w.Grows filling w' ∧ Related table bound w' f m r ∧
        SameValue table bound w' a b)
      fun m r => ∃ w', w.Grows filling w' ∧ Related table bound w' f m r := by
  cases hv with
  | none => exact ⟨rfl, w, .refl filling w, h⟩
  | some hv => exact ⟨w, .refl filling w, h, hv⟩

/-- A local name has its cell at its distance, and what is bound there is what the cell holds; any
other name is bound in the global frame to what the table holds. -/
theorem Related.locate (h : Related table bound w f m r) (hc : Corresponds w scopes f env)
    (name : String) :
    (∃ d g c, scopes.distance? name = some d ∧ m.store.ancestor? m.active d = some g ∧
      w.cell g name = some c ∧ env.cell? name = some c) ∨
    (scopes.distance? name = none ∧ env.cell? name = none) := by
  rcases hc.find name with ⟨d, g, c, hd, hanc, hcell, henv⟩ | hnone
  · refine .inl ⟨d, g, c, hd, ?_, hcell, henv⟩
    rw [h.active, h.store.ancestor?_eq]
    exact hanc
  · exact .inr hnone

theorem simulates_read {host : Host} {node : NodeId} {name : Token}
    (hc : Corresponds w scopes f env) (ht : table[node]? = scopes.distance? name.lexeme) :
    Simulates table bound w f filling (Run.readVariable ⟨host, table⟩ node name) (read env name)
      (SameValue table bound) := by
  intro m r hr
  rcases hr.locate hc name.lexeme with ⟨d, g, c, hd, hanc, hcell, henv⟩ | ⟨hd, henv⟩
  · have hread : Run.readVariable ⟨host, table⟩ node name m =
        Run.declaredOr name (m.store.read? g name.lexeme) m := by
      simp only [Run.readVariable, ht, hd, Store.getAt?, hanc, Option.bind_some]
    have hread' : read env name r = Run.declaredOr name ((r.cells[c]?).bind id) r := by
      simp only [read, Machine.value?, henv]
    rw [hread, hread']
    exact simulates_declaredOr hr (hr.store.cell hcell)
  · have houter : m.store.enclosing? Store.globalFrame = none :=
      (hr.store.outer _).trans hr.store.outermost.2.1
    have hread : Run.readVariable ⟨host, table⟩ node name m =
        Run.declaredOr name (m.store.read? Store.globalFrame name.lexeme) m := by
      simp only [Run.readVariable, ht, hd, Store.get?_of_outermost houter]
    have hread' : read env name r = Run.declaredOr name (r.globals.lookup name.lexeme) r := by
      simp only [read, Machine.value?, henv]
    rw [hread, hread']
    exact simulates_declaredOr hr (hr.store.global name.lexeme)

theorem Related.setCell (h : Related table bound w f m r) {name : String} {c : CellId}
    (hc : w.cell g name = some c) (hv : SameValue table bound w v v') :
    Related table bound w f { m with store := m.store.define g name v } (r.setCell c v') :=
  ⟨h.store.setCell hc hv, h.active, h.depth, h.lines, h.nextCallable, h.nativeCalls⟩

theorem Related.setGlobal (h : Related table bound w f m r) (name : String)
    (hv : SameValue table bound w v v') :
    Related table bound w f { m with store := m.store.define Store.globalFrame name v }
      (r.setGlobal name v') :=
  ⟨h.store.setGlobal name hv, h.active, h.depth, h.lines, h.nextCallable, h.nativeCalls⟩

theorem simulates_assign {host : Host} {node : NodeId} {name : Token}
    (hc : Corresponds w scopes f env) (ht : table[node]? = scopes.distance? name.lexeme)
    (hv : SameValue table bound w v v') :
    Simulates table bound w f filling (Run.assignVariable ⟨host, table⟩ node name v)
      (assign env name v') fun _ _ _ => True := by
  intro m r hr
  rcases hr.locate hc name.lexeme with ⟨d, g, c, hd, hanc, hcell, henv⟩ | ⟨hd, henv⟩
  · have hset := rel_isSome (hr.store.cell hcell)
    have howner : Run.owner? ⟨host, table⟩ m node name.lexeme =
        if ((r.cells[c]?).bind id).isSome then some g else none := by
      simp only [Run.owner?, ht, hd, Store.ownerAt?, hanc, Option.filter, Store.binds_eq_isSome,
        hset]
    have hvalue : r.value? env name.lexeme = (r.cells[c]?).bind id := by
      simp only [Machine.value?, henv]
    rw [Run.assignVariable, assign, howner, hvalue, henv]
    cases ((r.cells[c]?).bind id).isSome with
    | false => exact ⟨rfl, w, .refl filling w, hr⟩
    | true => exact ⟨w, .refl filling w, hr.setCell hcell hv, trivial⟩
  · have houter : m.store.enclosing? Store.globalFrame = none :=
      (hr.store.outer _).trans hr.store.outermost.2.1
    have hset := rel_isSome (hr.store.global name.lexeme)
    have howner : Run.owner? ⟨host, table⟩ m node name.lexeme =
        if (r.globals.lookup name.lexeme).isSome then some Store.globalFrame else none := by
      simp only [Run.owner?, ht, hd, Store.owner?_of_outermost houter, Store.binds_eq_isSome, hset]
    have hvalue : r.value? env name.lexeme = r.globals.lookup name.lexeme := by
      simp only [Machine.value?, henv]
    rw [Run.assignVariable, assign, howner, hvalue, henv]
    cases (r.globals.lookup name.lexeme).isSome with
    | false => exact ⟨rfl, w, .refl filling w, hr⟩
    | true => exact ⟨w, .refl filling w, hr.setGlobal name.lexeme hv, trivial⟩

/-! ## Declaring -/

/-- Names that the innermost scope does not declare have no cell in its frame. -/
def Exact (w : World) (scopes : Scopes) (f : FrameId) : Prop :=
  ∀ scope ∈ scopes.head?, ∀ name, scope.declares name = false → w.cell f name = none

theorem Corresponds.lt_size (h : Corresponds w scopes f env) (hs : scopes ≠ []) : f < w.size := by
  cases env with
  | top => exact absurd h.1 hs
  | within names =>
    cases h.2 with
    | globals => exact absurd rfl hs
    | scope hf => exact hf

theorem Exact.grows (he : Exact w scopes f) (hc : Corresponds w scopes f env)
    (hw : w.Grows none w') : Exact w' scopes f := by
  intro scope hs name hn
  have hne : scopes ≠ [] := by
    rintro rfl
    cases hs
  rw [hw.same f (hc.lt_size hne) (Option.some_ne_none f)]
  exact he scope hs name hn

/-- What fills no old frame leaves it exact. -/
theorem Simulates.exact {x : LoxLang.Run α} {y : Run β}
    (h : Simulates table bound w f none x y same) (hc : Corresponds w scopes f env)
    (he : Exact w scopes f) :
    Simulates table bound w f filling x y fun w' a b => same w' a b ∧ Exact w' scopes f := by
  intro m r hr
  refine (h m r hr).mono ?_ ?_
  · rintro a m' b r' ⟨w', hw, hr', hs⟩
    exact ⟨w', hw.weaken filling, hr', hs, he.grows hc hw⟩
  · rintro m' r' ⟨w', hw, hr'⟩
    exact ⟨w', hw.weaken filling, hr'⟩

theorem declares_define (scope : Scope) (name other : String) :
    ((scope.declare name).define name).declares other = (scope.declare name).declares other := by
  rw [Bool.eq_iff_iff, Scope.declares_bind, Scope.declares_declare]

theorem Corresponds.define {name : Token} (h : Corresponds w (scopes.declare name) f env) :
    Corresponds w ((scopes.declare name).define name) f env := by
  cases scopes with
  | nil => exact h
  | cons scope scopes => exact h.congr (declares_define scope name.lexeme)

theorem Exact.define {name : Token} (h : Exact w (scopes.declare name) f) :
    Exact w ((scopes.declare name).define name) f := by
  cases scopes with
  | nil => exact h
  | cons scope scopes =>
    intro inner hs other hn
    cases hs
    rw [declares_define] at hn
    exact h _ rfl other hn

theorem undeclared_of_settled {name : Token}
    (h : Settled table bound (scopes.declarationFaults name)) :
    ∀ scope ∈ scopes.head?, scope.declares name.lexeme = false := by
  intro scope hs
  cases scopes with
  | nil => cases hs
  | cons inner scopes =>
    cases hs
    cases hd : scope.declares name.lexeme with
    | false => rfl
    | true =>
      rw [Scopes.declarationFaults, if_pos hd] at h
      exact (h _ (List.mem_singleton.2 rfl)).elim

/-- A name declared in the frame `g`. -/
theorem Related.declare (h : Related table bound w f m r) (hc : Corresponds w scopes g env)
    (he : Exact w scopes g) {name : Token}
    (hnew : ∀ scope ∈ scopes.head?, scope.declares name.lexeme = false) :
    ∃ w' inside r', Lexical.declare env name.lexeme r = .ok inside r' ∧ w.Grows (some g) w' ∧
      Related table bound w' f m r' ∧ Corresponds w' (scopes.declare name) g inside ∧
      Exact w' (scopes.declare name) g := by
  cases env with
  | top =>
    obtain ⟨rfl, rfl⟩ := hc
    exact ⟨w, .top, r, rfl, .refl _ w, h, ⟨rfl, rfl⟩, he⟩
  | within names =>
    cases scopes with
    | nil => exact absurd rfl hc.1
    | cons scope scopes =>
      have hfresh : w.cell g name.lexeme = none := he scope rfl _ (hnew scope rfl)
      have hlt : g < w.size := hc.lt_size hc.1
      have hlocal : g ≠ Store.globalFrame := by
        cases hc.2 with
        | scope _ hne => exact hne
      have hgrows := World.grows_declare r.cells.size hfresh
      refine ⟨w.declare g name.lexeme r.cells.size, _, _, rfl, hgrows,
        ⟨h.store.declare hlt hlocal hfresh, h.active, h.depth, h.lines, h.nextCallable,
          h.nativeCalls⟩, hc.declare r.cells.size hfresh, ?_⟩
      intro inner hs other hn
      cases hs
      have ho : other ≠ name.lexeme := by
        rintro rfl
        rw [Scope.declares, Scope.ready?_declare, if_pos rfl] at hn
        cases hn
      have hold : scope.declares other = false := by
        rwa [Scope.declares, Scope.ready?_declare, if_neg ho] at hn
      exact (if_neg fun hd => ho hd.2).trans (he scope rfl other hold)

/-- The scopes in which a statement is resolved once the name that it declares has been declared. -/
def scopesIn (scopes : Scopes) : Stmt → Scopes
  | .var name _ => scopes.declare name
  | .function name _ _ => (scopes.declare name).define name
  | _ => scopes

theorem simulates_declareIn {s : Stmt} {inFunction : Bool} (hc : Corresponds w scopes f env)
    (he : Exact w scopes f) (hs : Settled table bound (s.findings inFunction scopes).1) :
    Simulates table bound w f (some f) (Pure.pure ()) (declareIn env s) fun w' _ inside =>
      Corresponds w' (scopesIn scopes s) f inside ∧ Exact w' (scopesIn scopes s) f := by
  intro m r hr
  have hplain : (Pure.pure () : LoxLang.Run Unit) m = .ok () m := rfl
  cases s with
  | var name initializer =>
    have hnew := undeclared_of_settled (Settled.left hs)
    obtain ⟨w', inside, r', hd, hw, hr', hc', he'⟩ := hr.declare hc he hnew
    rw [declareIn, hd]
    exact ⟨w', hw, hr', hc', he'⟩
  | function name params body =>
    have hnew := undeclared_of_settled (Settled.left hs)
    obtain ⟨w', inside, r', hd, hw, hr', hc', he'⟩ := hr.declare hc he hnew
    rw [declareIn, hd]
    exact ⟨w', hw, hr', hc'.define, he'.define⟩
  | expression value => exact ⟨w, .refl _ w, hr, hc, he⟩
  | print keyword value => exact ⟨w, .refl _ w, hr, hc, he⟩
  | block body => exact ⟨w, .refl _ w, hr, hc, he⟩
  | ifElse condition thenBranch elseBranch => exact ⟨w, .refl _ w, hr, hc, he⟩
  | «while» condition body => exact ⟨w, .refl _ w, hr, hc, he⟩
  | «return» keyword value => exact ⟨w, .refl _ w, hr, hc, he⟩

/-- A declared name gets a value in the frame `g`. -/
theorem Related.define (h : Related table bound w f m r) (hc : Corresponds w scopes g env)
    {name : String} (hd : ∀ scope ∈ scopes.head?, scope.declares name = true)
    (hv : SameValue table bound w v v') :
    ∃ r', Lexical.define env name v' r = .ok () r' ∧
      Related table bound w f { m with store := m.store.define g name v } r' := by
  cases env with
  | top =>
    obtain ⟨rfl, rfl⟩ := hc
    exact ⟨_, rfl, h.setGlobal name hv⟩
  | within names =>
    obtain ⟨hne, hc⟩ := hc
    cases hc with
    | globals => exact absurd rfl hne
    | scope _ _ _ _ hdeclared =>
      obtain ⟨c, hc, hl⟩ := hdeclared name (hd _ rfl)
      have hcell : (Surroundings.within names).cell? name = some c := hl
      refine ⟨r.setCell c v', ?_, h.setCell hc hv⟩
      rw [Lexical.define, hcell]

theorem declares_declare (scopes : Scopes) (name : Token) :
    ∀ scope ∈ (scopes.declare name).head?, scope.declares name.lexeme = true := by
  intro scope hs
  cases scopes with
  | nil => cases hs
  | cons inner scopes =>
    cases hs
    exact (Scope.declares_declare inner _ _).2 (.inl rfl)

theorem declares_define_self (scopes : Scopes) (name : Token) :
    ∀ scope ∈ ((scopes.declare name).define name).head?, scope.declares name.lexeme = true := by
  intro scope hs
  cases scopes with
  | nil => cases hs
  | cons inner scopes =>
    cases hs
    exact (Scope.declares_bind inner _ _).2 (.inl rfl)

theorem simulates_define {name : String} (hc : Corresponds w scopes f env)
    (hd : ∀ scope ∈ scopes.head?, scope.declares name = true)
    (hv : SameValue table bound w v v') :
    Simulates table bound w f filling (Run.define name v) (define env name v')
      fun _ _ _ => True := by
  intro m r hr
  obtain rfl := hr.active
  obtain ⟨r', he, hr'⟩ := hr.define hc hd hv
  rw [he]
  exact ⟨w, .refl filling w, hr', trivial⟩

end LoxLang.Lexical
