import LoxLang.Proofs.Lexical.Steps
import Mathlib.Data.List.Forall2

/-!
Blocks, functions and operators on frames and on cells.

A block gets a new frame here and the surroundings of the block there; a call gets a frame with its
parameters bound, and a cell for each.  The new frame corresponds to the new scope in which the
resolution went through the block or the body.
-/

namespace LoxLang.Lexical

variable {table : Locals} {bound : NodeId} {α β : Type} {w w' : World} {f g : FrameId}
  {filling : Option FrameId} {same : World → α → β → Prop} {scopes : Scopes} {env : Surroundings}
  {m : LoxLang.Machine} {r : Machine} {v : Value} {v' : Value Surroundings}

/-! ## Entering -/

theorem exact_empty (hnone : ∀ name, w.cell f name = none) : Exact w ({} :: scopes) f :=
  fun _ _ name _ => hnone name

theorem Related.push (h : Related table bound w f m r) (g : FrameId) :
    Related table bound (w.push g) f { m with store := m.store.push g [] } r :=
  ⟨h.store.push g, h.active, h.depth, h.lines, h.nextCallable, h.nativeCalls⟩

theorem exact_push (w : World) (g : FrameId) (scopes : Scopes) :
    Exact (w.push g) ({} :: scopes) w.size := by
  refine exact_empty fun name => ?_
  exact congrFun (if_pos rfl : (w.push g).cell w.size = fun _ => none) name

theorem simulates_newInnerFrame (hc : Corresponds w scopes f env) :
    Simulates table bound w f filling Run.newInnerFrame (Pure.pure env.enter) fun w' a inside =>
      a = w.size ∧ Corresponds w' ({} :: scopes) a inside ∧ Exact w' ({} :: scopes) a := by
  intro m r hr
  obtain rfl := hr.active
  have hnext : m.store.nextFrame = w.size := hr.store.size
  refine ⟨w.push m.active, (w.grows_push _).weaken filling, hr.push m.active, hnext, ?_, ?_⟩
  · rw [hnext]
    exact hc.enter hr.store.outermost.1
  · rw [hnext]
    exact exact_push w m.active scopes

/-- Parameters are declared in turn in the frame `g`, and get their values. -/
theorem Related.bindAll {params : List Token} {values : List Value}
    {values' : List (Value Surroundings)}
    (hvs : List.Forall₂ (SameValue table bound w) values values')
    (hlen : values.length = params.length) (h : Related table bound w f m r)
    (hc : Corresponds w scopes g env) (he : Exact w scopes g)
    (hs : Settled table bound (scopes.parameters params).1) :
    ∃ w' inside r', Lexical.bindAll env ((params.map (·.lexeme)).zip values') r = .ok inside r' ∧
      w.Grows (some g) w' ∧
      Related table bound w' f
        { m with
          store := ((params.map (·.lexeme)).zip values).foldl
            (fun t b => t.define g b.1 b.2) m.store } r' ∧
      Corresponds w' (scopes.parameters params).2 g inside ∧
      Exact w' (scopes.parameters params).2 g := by
  induction params generalizing values values' w m r scopes env with
  | nil => exact ⟨w, env, r, rfl, .refl _ w, h, hc, he⟩
  | cons name names ih =>
    cases hvs with
    | nil => cases hlen
    | @cons v v' vs vs' hv hvs =>
      have hnew := undeclared_of_settled (Settled.left hs)
      have hrest : Settled table bound (((scopes.declare name).define name).parameters names).1 :=
        Settled.right hs
      obtain ⟨w₁, inside, r₁, hdeclare, hw₁, hr₁, hc₁, he₁⟩ := h.declare hc he hnew
      obtain ⟨r₂, hdefine, hr₂⟩ := hr₁.define hc₁.define (declares_define_self scopes name)
        (hv.grows hw₁)
      obtain ⟨w₂, last, r₃, hall, hw₂, hr₃, hc₃, he₃⟩ :=
        ih (hvs.imp fun _ _ hv => hv.grows hw₁) (Nat.succ.inj hlen) hr₂ hc₁.define he₁.define hrest
      refine ⟨w₂, last, r₃, ?_, hw₁.trans hw₂, hr₃, hc₃, he₃⟩
      exact (Action.bind_ok hdeclare).trans ((Action.bind_ok hdefine).trans hall)

/-- The new frame of a call, with the parameters bound. -/
theorem simulates_newFrame {params : List Token} {values : List Value}
    {values' : List (Value Surroundings)} {kept : Surroundings} (hc : Corresponds w scopes g env)
    (he : env.enter = kept.enter)
    (hs : Settled table bound (Scopes.parameters ({} :: scopes) params).1)
    (hvs : List.Forall₂ (SameValue table bound w) values values')
    (hlen : values.length = params.length) :
    Simulates table bound w f (some w.size)
      (Run.newFrame g ((params.map (·.lexeme)).zip values))
      (bindAll kept.enter ((params.map (·.lexeme)).zip values')) fun w' a inside =>
        a = w.size ∧ Corresponds w' (Scopes.parameters ({} :: scopes) params).2 a inside ∧
          Exact w' (Scopes.parameters ({} :: scopes) params).2 a := by
  rw [← he]
  intro m r hr
  have hnext : m.store.nextFrame = w.size := hr.store.size
  have hgrows := w.grows_push g
  have hframe : Run.newFrame g ((params.map (·.lexeme)).zip values) m =
      .ok w.size { m with
        store := ((params.map (·.lexeme)).zip values).foldl
          (fun t b => t.define w.size b.1 b.2) (m.store.push g []) } := by
    rw [Run.newFrame, Store.push_eq_foldl, hnext]
  obtain ⟨w', inside, r', hall, hw, hr', hc', he'⟩ :=
    (hr.push g).bindAll (hvs.imp fun _ _ hv => hv.grows hgrows) hlen
      (hc.enter hr.store.outermost.1) (exact_push w g scopes) hs
  rw [hframe, hall]
  exact ⟨w', (hgrows.weaken _).trans hw, hr', rfl, hc', he'⟩

/-! ## Running inside -/

theorem Simulates.inFrame {x : LoxLang.Run α} {y : Run β}
    (h : Simulates table bound w g filling x y same) :
    Simulates table bound w f filling (Run.inFrame g x) y same := by
  intro m r hr
  have hleave : ∀ {w' m' r'}, Related table bound w' g m' r' →
      Related table bound w' f { m' with active := m.active } r' := fun hr' =>
    ⟨hr'.store, hr.active, hr'.depth, hr'.lines, hr'.nextCallable, hr'.nativeCalls⟩
  have hinside := h { m with active := g } r
    ⟨hr.store, rfl, hr.depth, hr.lines, hr.nextCallable, hr.nativeCalls⟩
  rw [Run.inFrame_eq, ← (y r).mapState_id, Outcome.agrees_mapState]
  refine hinside.mono ?_ ?_
  · rintro a m' b r' ⟨w', hw, hr', hs⟩
    exact ⟨w', hw, hleave hr', hs⟩
  · rintro m' r' ⟨w', hw, hr'⟩
    exact ⟨w', hw, hleave hr'⟩

theorem Simulates.inCall {x : LoxLang.Run α} {y : Run β} (paren : Token)
    (h : Simulates table bound w f filling x y same) :
    Simulates table bound w f filling (Run.inCall paren x) (inCall paren y) same := by
  intro m r hr
  by_cases hdeep : maxCallDepth ≤ m.depth
  · have hdeep' : maxCallDepth ≤ r.depth := hr.depth ▸ hdeep
    rw [Run.inCall, Lexical.inCall, if_pos hdeep, if_pos hdeep']
    exact ⟨rfl, w, .refl filling w, hr⟩
  · have hdeep' : ¬ maxCallDepth ≤ r.depth := hr.depth ▸ hdeep
    have hinside := h { m with depth := m.depth + 1 } { r with depth := r.depth + 1 }
      ⟨hr.store, hr.active, congrArg (· + 1) hr.depth, hr.lines, hr.nextCallable, hr.nativeCalls⟩
    have hleave : ∀ {w' m' r'}, Related table bound w' f m' r' →
        Related table bound w' f { m' with depth := m'.depth - 1 }
          { r' with depth := r'.depth - 1 } := fun hr' =>
      ⟨hr'.store, hr'.active, congrArg (· - 1) hr'.depth, hr'.lines, hr'.nextCallable,
        hr'.nativeCalls⟩
    rw [Run.inCall_eq, if_neg hdeep, inCall_eq, if_neg hdeep', Outcome.agrees_mapState]
    refine hinside.mono ?_ ?_
    · rintro a m' b r' ⟨w', hw, hr', hs⟩
      exact ⟨w', hw, hleave hr', hs⟩
    · rintro m' r' ⟨w', hw, hr'⟩
      exact ⟨w', hw, hleave hr'⟩

/-! ## Functions and printing -/

theorem simulates_closure {name : Option String} {params : List Token} {body : List Stmt}
    (hc : Corresponds w scopes f env) (hs : Settled table bound (functionFindings scopes params body))
    (hp : Stmt.ProperAll body) :
    Simulates table bound w f filling (Run.closure name params body)
      (closure env name params body) (SameValue table bound) := by
  intro m r hr
  obtain rfl := hr.active
  have hvalue : SameValue table bound w
      (.callable m.nextCallable (.closure name params body m.active))
      (.callable r.nextCallable (.closure name params body env)) :=
    hr.nextCallable ▸ .callable (.closure hc rfl hs hp)
  exact ⟨w, .refl filling w, ⟨hr.store, rfl, hr.depth, hr.lines,
    congrArg (· + 1) hr.nextCallable, hr.nativeCalls⟩, hvalue⟩

theorem simulates_callNative (reading : Nat → Except String Float) (name : String) (paren : Token)
    (values : List Value) :
    Simulates table bound w f filling
      (Run.callNative ⟨Host.timed reading, table⟩ name paren values) (readClock reading paren)
      (SameValue table bound) := by
  intro m r hr
  have hread : Related table bound w f { m with nativeCalls := r.nativeCalls + 1 }
      { r with nativeCalls := r.nativeCalls + 1 } :=
    ⟨hr.store, hr.active, hr.depth, hr.lines, hr.nextCallable, rfl⟩
  simp only [Run.callNative, Host.timed, readClock, hr.nativeCalls]
  cases reading r.nativeCalls with
  | ok x => exact ⟨w, .refl filling w, hread, .number x⟩
  | error message => exact ⟨rfl, w, .refl filling w, hread⟩

theorem simulates_print (line : String) :
    Simulates table bound w f filling (Run.print line) (print line) fun _ _ _ => True :=
  fun _ _ hr => ⟨w, .refl filling w, ⟨hr.store, hr.active, hr.depth,
    congrArg (·.push line) hr.lines, hr.nextCallable, hr.nativeCalls⟩, trivial⟩

/-! ## Operators -/

theorem simulates_conclude (operator : Token) (verdict : Run.Verdict) :
    Simulates table bound w f filling (Run.conclude operator verdict)
      (Run.conclude operator verdict) (SameValue table bound) := by
  cases verdict with
  | value c => exact .pure (.ofConstant w c)
  | fault cause => exact .fault cause operator
  | malformed => exact fun _ _ hr => ⟨rfl, w, .refl filling w, hr⟩

theorem simulates_applyUnary (operator : Token) (hv : SameValue table bound w v v') :
    Simulates table bound w f filling (Run.applyUnary operator v) (Run.applyUnary operator v')
      (SameValue table bound) := by
  obtain ⟨verdict, -, hx, hy⟩ := Run.applyUnary_verdict (rfl : operator.kind = _) hv.similar
  rw [hx, hy]
  exact simulates_conclude operator verdict

theorem simulates_applyBinary (operator : Token) {a b : Value} {a' b' : Value Surroundings}
    (ha : SameValue table bound w a a') (hb : SameValue table bound w b b') :
    Simulates table bound w f filling (Run.applyBinary operator a b)
      (Run.applyBinary operator a' b') (SameValue table bound) := by
  obtain ⟨verdict, -, hx, hy⟩ :=
    Run.applyBinary_verdict (rfl : operator.kind = _) ha.similar hb.similar
  rw [hx, hy]
  exact simulates_conclude operator verdict

end LoxLang.Lexical
