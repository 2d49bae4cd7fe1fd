import LoxLang.Proofs.Machine.Moments
import LoxLang.Proofs.Machine.Stops

/-!
The active frame and the depth of calls.

Every part of an activity is left where it was entered, be it by a fault, so every activity ends in
the frame and at the depth in which it was begun (`run_abreast`).  At every moment the depth is
the number of calls on the path (`Comes.depth_eq`), and the only way to fault by calling too deep is to
begin a call when as many as allowed go on (`Ends.tooDeep`).
-/

namespace LoxLang

variable {α : Type} {context : Context} {m m' s : Machine}

/-- The second machine is where the first one is: in the same frame, at the same depth of calls. -/
structure Machine.Abreast (m m' : Machine) : Prop where
  active : m'.active = m.active
  depth : m'.depth = m.depth

namespace Machine.Abreast

theorem refl (m : Machine) : m.Abreast m := ⟨rfl, rfl⟩

theorem trans (h : m.Abreast m') (h' : m'.Abreast s) : m.Abreast s :=
  ⟨h'.active.trans h.active, h'.depth.trans h.depth⟩

end Machine.Abreast

/-! ## Single steps -/

/-- However it ends, it ends where it was begun. -/
def Outcome.Stays (m : Machine) (o : Outcome Stop Machine α) : Prop :=
  ∀ s, o.state? = some s → m.Abreast s

namespace Run

theorem stays_ok {v : α} (h : m.Abreast s) : (Outcome.ok v s : Outcome Stop Machine α).Stays m := by
  intro t ht
  cases ht
  exact h

theorem Still.stays {x : Run α} (hx : Still x) (h : m.Abreast s) : (x s).Stays m := by
  intro t ht
  obtain ⟨-, hactive, hdepth⟩ := hx s t ht
  exact h.trans ⟨hactive, hdepth⟩

theorem stays_fault (cause : Cause) (token : Token) (h : m.Abreast s) :
    (fault cause token s : Outcome Stop Machine α).Stays m :=
  (still_fault cause token).stays h

theorem stays_assignVariable (id : NodeId) (name : Token) (v w : Value) (h : m.Abreast s) :
    ((assignVariable context id name v >>= fun _ => pure w) s).Stays m := by
  rw [Action.bind_apply, assignVariable]
  cases owner? context s id name.lexeme with
  | none => exact stays_fault _ name h
  | some f => exact stays_ok ⟨h.active, h.depth⟩

end Run

/-! ## Activities -/

namespace Course

/-- Every part is begun at depth `inner` and left where the course began, and there it ends. -/
def Steady (m : Machine) (inner : Nat) : Course α → Prop
  | ends o => o.Stays m
  | part _ m' leave next =>
    m'.depth = inner ∧ (∀ s, m'.Abreast s → m.Abreast (leave s)) ∧
      ∀ v s, m.Abreast s → (next v s).Steady m inner

theorem Steady.first {a : Activity} {next : a.Result → Machine → Course α} (h : m.Abreast s)
    (hnext : ∀ v s, m.Abreast s → (next v s).Steady m m.depth) :
    (first a s next).Steady m m.depth :=
  ⟨h.depth, fun _ hs => h.trans hs, hnext⟩

/-- A part with nothing after it. -/
theorem Steady.only {a : Activity} (h : m.Abreast s) :
    (Course.first a s fun v s => ends (.ok v s)).Steady m m.depth :=
  .first h fun _ _ hs => Run.stays_ok hs

/-- If every activity ends where it was begun, then a steady course does. -/
theorem Steady.stays {inner : Nat} {run : (a : Activity) → Run a.Result} {c : Course α}
    (hc : c.Steady m inner) (hrun : ∀ a m, (run a m).Stays m) : (c.carry run).Stays m := by
  induction c with
  | ends o => exact hc
  | part a m' leave next ih =>
    obtain ⟨-, hleave, hnext⟩ := hc
    have ha := hrun a m'
    rw [carry]
    generalize run a m' = o at ha
    cases o with
    | ok v s => exact ih v _ (hnext v _ (hleave s (ha s rfl)))
    | error e s =>
      intro t ht
      cases ht
      exact hleave s (ha s rfl)
    | exhausted =>
      intro t ht
      cases ht

end Course

namespace Activity

open Course Run

/-- The depth at which the parts of an activity go on. -/
def innerDepth (a : Activity) (m : Machine) : Nat := if a.isCall then m.depth + 1 else m.depth

theorem steady_evaluate (e : Expr) (m : Machine) :
    ((evaluate e).course context m).Steady m m.depth := by
  have hm := Machine.Abreast.refl m
  cases e with
  | constant value => exact stays_ok hm
  | grouping inner => exact .only hm
  | unary operator operand => exact .first hm fun v _ hs => (still_applyUnary operator v).stays hs
  | binary left operator right =>
    exact .first hm fun a _ hs => .first hs fun b _ hs => (still_applyBinary operator a b).stays hs
  | logical left operator right =>
    refine .first hm fun a s hs => ?_
    split
    · exact stays_ok hs
    · exact .only hs
  | read id name => exact (still_readVariable id name).stays hm
  | assign id name value => exact .first hm fun v _ hs => stays_assignVariable id name v v hs
  | call callee paren arguments =>
    refine .first hm fun f _ hs => .first hs fun values _ hs => ?_
    cases f with
    | callable identity function =>
      dsimp only
      split
      · exact .only hs
      · exact stays_fault _ paren hs
    | _ => exact stays_fault _ paren hs
  | function keyword params body => exact (still_closure none params body).stays hm

theorem steady_execute (st : Stmt) (m : Machine) :
    ((execute st).course context m).Steady m m.depth := by
  have hm := Machine.Abreast.refl m
  cases st with
  | expression value => exact .first hm fun _ _ hs => stays_ok hs
  | print keyword value => exact .first hm fun _ _ hs => stays_ok ⟨hs.active, hs.depth⟩
  | var name initializer =>
    cases initializer with
    | none => exact stays_ok ⟨rfl, rfl⟩
    | some value => exact .first hm fun _ _ hs => stays_ok ⟨hs.active, hs.depth⟩
  | block body => exact ⟨rfl, fun _ hs => ⟨rfl, hs.depth⟩, fun _ _ hs => stays_ok hs⟩
  | ifElse condition thenBranch elseBranch =>
    refine .first hm fun v s hs => ?_
    split
    · exact .only hs
    · cases elseBranch with
      | none => exact stays_ok hs
      | some branch => exact .only hs
  | «while» condition body => exact .only hm
  | function name params body => exact stays_ok ⟨rfl, rfl⟩
  | «return» keyword value =>
    cases value with
    | none => exact stays_ok hm
    | some value => exact .first hm fun _ _ hs => stays_ok hs

theorem course_steady (a : Activity) (m : Machine) :
    (a.course context m).Steady m (a.innerDepth m) := by
  have hm := Machine.Abreast.refl m
  cases a with
  | evaluate e => exact steady_evaluate e m
  | evaluateAll es =>
    cases es with
    | nil => exact stays_ok hm
    | cons e es => exact .first hm fun _ _ hs => .first hs fun _ _ hs => stays_ok hs
  | call function paren values =>
    cases function with
    | native name arity => exact (still_callNative name paren values).stays hm
    | closure name params body frame =>
      simp only [course]
      split
      · exact stays_fault _ paren ⟨rfl, rfl⟩
      · refine ⟨rfl, fun s hs => ⟨rfl, ?_⟩, fun c s hs => ?_⟩
        · show s.depth - 1 = m.depth
          rw [hs.depth]
          rfl
        · cases c with
          | normal => exact stays_ok hs
          | returned v => exact stays_ok hs
  | execute st => exact steady_execute st m
  | executeAll ss =>
    cases ss with
    | nil => exact stays_ok hm
    | cons st ss =>
      refine .first hm fun c s hs => ?_
      cases c with
      | normal => exact .only hs
      | returned v => exact stays_ok hs
  | loop condition body =>
    refine .first hm fun v s hs => ?_
    split
    · refine .first hs fun c s hs => ?_
      cases c with
      | normal => exact .only hs
      | returned v => exact stays_ok hs
    · exact stays_ok hs

/-- Every activity ends where it was begun. -/
theorem run_stays (n : Nat) (a : Activity) (m : Machine) : (a.run context n m).Stays m := by
  induction n generalizing a m with
  | zero =>
    rw [run_zero]
    intro s hs
    cases hs
  | succ n ih =>
    rw [run_succ]
    exact (course_steady a m).stays ih

theorem Ends.stays {a : Activity} {o : Outcome Stop Machine a.Result} (h : a.Ends context m o) :
    o.Stays m := by
  obtain ⟨-, n, rfl⟩ := h
  exact run_stays n a m

end Activity

/-! ## Moments -/

theorem Course.Steady.begins {c : Course α} {inner : Nat} (hc : c.Steady m inner) :
    c.Begins context fun _ m' => m'.depth = inner := by
  induction c with
  | ends o => exact trivial
  | part a m₁ leave next ih =>
    exact ⟨hc.1, fun v s ha => ih v _ (hc.2.2 v _ (hc.2.1 s (ha.stays s rfl)))⟩

variable {a b : Activity} {path : Path}

@[simp] theorem bodies_nil : bodies [] = 0 := rfl

theorem innerDepth_eq (a : Activity) (i : Nat) (m : Machine) (path : Path) :
    a.innerDepth m + bodies path = m.depth + bodies ((a, i) :: path) := by
  rw [bodies, bodies, List.countP_cons, Activity.innerDepth]
  split
  · omega
  · rfl

/-- The depth is the number of calls that go on. -/
theorem Comes.depth_eq (h : Comes context a m path b m') : m'.depth = m.depth + bodies path := by
  induction h with
  | start _ _ => rfl
  | @within a m i _ m₁ path _ _ hpart _ ih =>
    rw [ih, (a.course_steady m).begins.part hpart, innerDepth_eq]

theorem Comes.depth_le (h : Comes context a m path b m') (hm : m.depth ≤ maxCallDepth) :
    m'.depth ≤ maxCallDepth := by
  induction h with
  | start _ _ => exact hm
  | @within a m i _ m₁ path _ _ hpart _ ih =>
    refine ih ?_
    rw [(a.course_steady m).begins.part hpart]
    cases a with
    | call function paren values => exact (Activity.part_call hpart).1
    | _ => exact hm

/-! ## Calls that are too deep -/

/-- A fault by calling too deep. -/
def Stop.TooDeep : Stop → Prop
  | .fault d => ∃ limit, d.cause = .callsTooDeep limit
  | .malformed _ => False

/-- A call has as many values as the function has parameters. -/
def Activity.Fitting : Activity → Prop
  | .call function _ values => values.length = function.arity
  | _ => True

namespace Course

/-- All parts are such, and whatever end it comes to by itself is. -/
def Every (begun : Activity → Prop) (ended : Outcome Stop Machine α → Prop) : Course α → Prop
  | ends o => ended o
  | part a _ _ next => begun a ∧ ∀ v s, (next v s).Every begun ended

variable {begun : Activity → Prop} {ended : Outcome Stop Machine α → Prop} {c : Course α}

theorem Every.begins (hc : c.Every begun ended) : c.Begins context fun a _ => begun a := by
  induction c with
  | ends o => exact trivial
  | part a m leave next ih => exact ⟨hc.1, fun v s _ => ih v (leave s) (hc.2 v (leave s))⟩

/-- A course ends by itself or with the fault of a part. -/
theorem Every.error (hc : c.Every begun ended) {n : Nat} {e : Stop}
    (h : c.carry (Activity.run context n) = .error e s) :
    ended (.error e s) ∨ ∃ i b m' s', c.Part context i b m' ∧ b.run context n m' = .error e s' := by
  induction c with
  | ends o =>
    cases h
    exact .inl hc
  | part a m leave next ih =>
    rw [carry] at h
    cases ha : a.run context n m with
    | ok v t =>
      rw [ha] at h
      rcases ih v (leave t) (hc.2 v _) h with hown | ⟨i, b, m', s', hpart, hb⟩
      · exact .inl hown
      · exact .inr ⟨i + 1, b, m', s', ⟨v, t, Activity.ends_of_ok ha, hpart⟩, hb⟩
    | error e' t =>
      rw [ha] at h
      cases h
      exact .inr ⟨0, a, m, t, ⟨rfl, rfl⟩, ha⟩
    | exhausted =>
      rw [ha] at h
      cases h

end Course

/-- No fault by calling too deep. -/
def Outcome.Clear (o : Outcome Stop Machine α) : Prop := ∀ e s, o = .error e s → ¬ e.TooDeep

/-- Native functions do not answer that calls are too deep. -/
def Host.Shallow (host : Host) : Prop :=
  ∀ name count values limit, host.answer name count values ≠ .error (.callsTooDeep limit)

theorem Host.shallow_timed (reading : Nat → Except String Float) : (Host.timed reading).Shallow := by
  intro name count values limit h
  simp only [Host.timed] at h
  split at h <;> cases h

namespace Run

def Clears (x : Run α) : Prop := ∀ s, (x s).Clear

theorem clear_ok {v : α} : (Outcome.ok v s : Outcome Stop Machine α).Clear := by
  intro e t h
  cases h

theorem clear_fault {cause : Cause} (hc : ∀ limit, cause ≠ .callsTooDeep limit) (token : Token) :
    (fault cause token s : Outcome Stop Machine α).Clear := by
  rintro e t ⟨rfl, rfl⟩ ⟨limit, h⟩
  exact hc limit h

theorem clear_malformed (operator : Token) :
    (Action.fail (.malformed operator) s : Outcome Stop Machine α).Clear := by
  rintro e t ⟨rfl, rfl⟩ h
  exact h

theorem clear_declaredOr (name : Token) (o : Option Value) : (declaredOr name o s).Clear := by
  cases o with
  | none => exact clear_fault (by nofun) name
  | some v => exact clear_ok

theorem clear_readVariable (id : NodeId) (name : Token) :
    (readVariable context id name s).Clear := by
  unfold readVariable
  split
  · exact clear_declaredOr name _
  · exact clear_declaredOr name _

theorem clear_assignVariable (id : NodeId) (name : Token) (v w : Value) :
    ((assignVariable context id name v >>= fun _ => pure w) s).Clear := by
  rw [Action.bind_apply, assignVariable]
  cases owner? context s id name.lexeme with
  | none => exact clear_fault (by nofun) name
  | some f => exact clear_ok

theorem clear_applyUnary (operator : Token) (v : Value) : Clears (applyUnary operator v) := by
  unfold applyUnary
  split
  · exact fun _ => clear_ok
  · split
    · exact fun _ => clear_ok
    · exact fun _ => clear_fault (by nofun) operator
  · exact fun _ => clear_malformed operator

theorem clear_applyBinary (operator : Token) (a b : Value) :
    Clears (applyBinary operator a b) := by
  unfold applyBinary
  split
  · exact fun _ => clear_ok
  · exact fun _ => clear_ok
  · split
    · exact fun _ => clear_ok
    · exact fun _ => clear_ok
    · exact fun _ => clear_fault (by nofun) operator
  · split
    · split
      · exact fun _ => clear_ok
      · exact fun _ => clear_malformed operator
    · exact fun _ => clear_fault (by nofun) operator

theorem clear_callNative (hh : context.host.Shallow) (name : String) (paren : Token)
    (values : List Value) : (callNative context name paren values s).Clear := by
  unfold callNative
  split
  · exact clear_ok
  · rename_i cause h
    refine clear_fault (fun limit hc => ?_) paren
    rw [hc] at h
    exact hh _ _ _ limit h

end Run

namespace Activity

open Run

/-- A program function is called where as many calls go on as may. -/
def Overflows : Activity → Machine → Prop
  | call (.closure _ _ _ _) _ _, m => maxCallDepth ≤ m.depth
  | _, _ => False

theorem every_evaluate (e : Expr) (m : Machine) :
    ((evaluate e).course context m).Every Fitting Outcome.Clear := by
  cases e with
  | constant value => exact clear_ok
  | grouping inner => exact ⟨trivial, fun _ _ => clear_ok⟩
  | unary operator operand => exact ⟨trivial, fun v s => clear_applyUnary operator v s⟩
  | binary left operator right =>
    exact ⟨trivial, fun a _ => ⟨trivial, fun b s => clear_applyBinary operator a b s⟩⟩
  | logical left operator right =>
    refine ⟨trivial, fun a s => ?_⟩
    dsimp only
    split
    · exact clear_ok
    · exact ⟨trivial, fun _ _ => clear_ok⟩
  | read id name => exact clear_readVariable id name
  | assign id name value => exact ⟨trivial, fun v _ => clear_assignVariable id name v v⟩
  | call callee paren arguments =>
    refine ⟨trivial, fun f _ => ⟨trivial, fun values s => ?_⟩⟩
    cases f with
    | callable identity function =>
      dsimp only
      split
      · rename_i hcount
        exact ⟨hcount, fun _ _ => clear_ok⟩
      · exact clear_fault (by nofun) paren
    | _ => exact clear_fault (by nofun) paren
  | function keyword params body => exact clear_ok

theorem every_execute (st : Stmt) (m : Machine) :
    ((execute st).course context m).Every Fitting Outcome.Clear := by
  cases st with
  | expression value => exact ⟨trivial, fun _ _ => clear_ok⟩
  | print keyword value => exact ⟨trivial, fun _ _ => clear_ok⟩
  | var name initializer =>
    cases initializer with
    | none => exact clear_ok
    | some value => exact ⟨trivial, fun _ _ => clear_ok⟩
  | block body => exact ⟨trivial, fun _ _ => clear_ok⟩
  | ifElse condition thenBranch elseBranch =>
    refine ⟨trivial, fun v s => ?_⟩
    dsimp only
    split
    · exact ⟨trivial, fun _ _ => clear_ok⟩
    · cases elseBranch with
      | none => exact clear_ok
      | some branch => exact ⟨trivial, fun _ _ => clear_ok⟩
  | «while» condition body => exact ⟨trivial, fun _ _ => clear_ok⟩
  | function name params body => exact clear_ok
  | «return» keyword value =>
    cases value with
    | none => exact clear_ok
    | some value => exact ⟨trivial, fun _ _ => clear_ok⟩

/-- An activity begins fitting calls only, and does not come to a call too deep by itself unless it is
one. -/
theorem course_every (hh : context.host.Shallow) {a : Activity} (ha : ¬ a.Overflows m) :
    (a.course context m).Every Fitting Outcome.Clear := by
  cases a with
  | evaluate e => exact every_evaluate e m
  | evaluateAll es =>
    cases es with
    | nil => exact clear_ok
    | cons e es => exact ⟨trivial, fun _ _ => ⟨trivial, fun _ _ => clear_ok⟩⟩
  | call function paren values =>
    cases function with
    | native name arity => exact clear_callNative hh name paren values
    | closure name params body frame =>
      rw [show course context (call (.closure name params body frame) paren values) m = _ from
        if_neg ha]
      refine ⟨trivial, fun c _ => ?_⟩
      cases c with
      | normal => exact clear_ok
      | returned v => exact clear_ok
  | execute st => exact every_execute st m
  | executeAll ss =>
    cases ss with
    | nil => exact clear_ok
    | cons st ss =>
      refine ⟨trivial, fun c s => ?_⟩
      cases c with
      | normal => exact ⟨trivial, fun _ _ => clear_ok⟩
      | returned v => exact clear_ok
  | loop condition body =>
    refine ⟨trivial, fun v s => ?_⟩
    dsimp only
    split
    · refine ⟨trivial, fun c s => ?_⟩
      cases c with
      | normal => exact ⟨trivial, fun _ _ => clear_ok⟩
      | returned v => exact clear_ok
    · exact clear_ok

/-- A call that is too deep comes to nothing but this fault. -/
theorem call_overflows {name : Option String} {params : List Token} {body : List Stmt}
    {frame : FrameId} {paren : Token} {values : List Value} (hdeep : maxCallDepth ≤ m.depth) :
    (call (.closure name params body frame) paren values).course context m =
      .ends (fault (.callsTooDeep maxCallDepth) paren
        { m with store := m.store.push frame ((params.map (·.lexeme)).zip values) }) := by
  simp only [course]
  exact if_pos hdeep

theorem ends_overflow {name : Option String} {params : List Token} {body : List Stmt}
    {frame : FrameId} {paren : Token} {values : List Value} (hdeep : maxCallDepth ≤ m.depth) :
    (call (.closure name params body frame) paren values).Ends context m
      (.error (.fault (.atToken (.callsTooDeep maxCallDepth) paren))
        { m with store := m.store.push frame ((params.map (·.lexeme)).zip values) }) := by
  rw [ends_iff, call_overflows hdeep]
  exact Course.ends_ends.2 ⟨Outcome.error_ne_exhausted _ _, rfl⟩

/-- A call that is not too deep begins the body of the function. -/
theorem call_enters {name : Option String} {params : List Token} {body : List Stmt}
    {frame : FrameId} {paren : Token} {values : List Value} (hdeep : m.depth < maxCallDepth) :
    ((call (.closure name params body frame) paren values).course context m).Part context 0
      (.executeAll body)
      { m with
        store := m.store.push frame ((params.map (·.lexeme)).zip values)
        depth := m.depth + 1
        active := m.store.nextFrame } := by
  simp only [course]
  rw [if_neg (Nat.not_le_of_lt hdeep)]
  exact ⟨rfl, rfl⟩

/-- What faults by calling too deep comes to a call where as many go on as may. -/
theorem run_tooDeep (hh : context.host.Shallow) {n : Nat} {a : Activity} {e : Stop}
    (h : a.run context n m = .error e m') (he : e.TooDeep) :
    ∃ path name params body frame paren values s,
      Comes context a m path (.call (.closure name params body frame) paren values) s ∧
        maxCallDepth ≤ s.depth ∧ e = .fault (.atToken (.callsTooDeep maxCallDepth) paren) := by
  induction n generalizing a m m' with
  | zero =>
    rw [run_zero] at h
    cases h
  | succ n ih =>
    rw [run_succ] at h
    by_cases ha : a.Overflows m
    · cases a with
      | call function paren values =>
        cases function with
        | native name arity => exact ha.elim
        | closure name params body frame =>
          rw [call_overflows ha] at h
          cases h
          exact ⟨[], name, params, body, frame, paren, values, m, .start _ _, ha, rfl⟩
      | _ => exact ha.elim
    · rcases (course_every hh ha).error h with hclear | ⟨i, b, m₁, s', hpart, hb⟩
      · exact absurd he (hclear e m' rfl)
      · obtain ⟨path, name, params, body, frame, paren, values, s, hcomes, hs, heq⟩ := ih hb
        exact ⟨(a, i) :: path, name, params, body, frame, paren, values, s,
          .within hpart hcomes, hs, heq⟩

end Activity

/-! ## Programs -/

section

variable {ss : List Stmt} {a b : Activity} {path : Path}

theorem Through.abreast (h : Through context ss m m') : m.Abreast m' :=
  h.preserves (.refl m) fun _ _ _ m' hm hs => hm.trans (hs.stays m' rfl)

theorem Finishes.stays {o : Outcome Stop Machine Unit} (h : Finishes context ss m o) :
    o.Stays m := by
  intro s hs
  cases o with
  | ok u t =>
    cases hs
    exact Through.abreast ⟨h.2.choose, h.2.choose_spec⟩
  | error e t =>
    cases hs
    obtain ⟨st, m₁, ⟨before, rest, -, hthrough⟩, hends⟩ := finishes_error_iff.1 h
    exact hthrough.abreast.trans (hends.stays s rfl)
  | exhausted => cases hs

theorem Occurs.depth_eq (h : Occurs context ss m path b m') : m'.depth = m.depth + bodies path := by
  obtain ⟨st, m₁, ⟨before, rest, -, hthrough⟩, hcomes⟩ := h
  rw [hcomes.depth_eq, hthrough.abreast.depth]

theorem Occurs.depth_le (h : Occurs context ss m path b m') (hm : m.depth ≤ maxCallDepth) :
    m'.depth ≤ maxCallDepth := by
  obtain ⟨st, m₁, ⟨before, rest, -, hthrough⟩, hcomes⟩ := h
  exact hcomes.depth_le (hthrough.abreast.depth ▸ hm)

/-- Wherever a call is begun, the function takes as many values as it is called with. -/
theorem Comes.fitting (hh : context.host.Shallow) (h : Comes context a m path b m')
    (ha : a.Fitting) : b.Fitting := by
  induction h with
  | start _ _ => exact ha
  | @within a m i b m₁ _ _ _ hpart _ ih =>
    refine ih ?_
    by_cases hdeep : a.Overflows m
    · cases a with
      | call function paren values =>
        obtain ⟨-, -, name, params, body, frame, -, rfl⟩ := Activity.part_call hpart
        exact trivial
      | _ => exact hdeep.elim
    · exact (Activity.course_every hh hdeep).begins.part hpart

theorem Occurs.fitting (hh : context.host.Shallow) (h : Occurs context ss m path b m') :
    b.Fitting := by
  obtain ⟨st, m₁, -, hcomes⟩ := h
  exact hcomes.fitting hh trivial

/-- A fault at any moment is the fault of the program. -/
theorem Occurs.error (h : Occurs context ss m path b m') {e : Stop} {s : Machine}
    (hb : b.Ends context m' (.error e s)) : ∃ s', Finishes context ss m (.error e s') := by
  obtain ⟨st, m₁, harrives, hcomes⟩ := h
  obtain ⟨s', hs'⟩ := hcomes.error hb
  exact ⟨s', finishes_error_iff.2 ⟨st, m₁, harrives, hs'⟩⟩

theorem Finishes.tooDeep (hh : context.host.Shallow) {e : Stop}
    (h : Finishes context ss m (.error e m')) (he : e.TooDeep) :
    ∃ path name params body frame paren values s,
      Occurs context ss m path (.call (.closure name params body frame) paren values) s ∧
        maxCallDepth ≤ s.depth ∧ e = .fault (.atToken (.callsTooDeep maxCallDepth) paren) := by
  obtain ⟨st, m₁, harrives, -, n, hn⟩ := finishes_error_iff.1 h
  obtain ⟨path, name, params, body, frame, paren, values, s, hcomes, hs, heq⟩ :=
    Activity.run_tooDeep hh hn he
  exact ⟨path, name, params, body, frame, paren, values, s, ⟨st, m₁, harrives, hcomes⟩, hs, heq⟩

end

/-! ## Machines that can be reached -/

/-- The machines that come of a new one by running things, each time with any table and any lines. -/
inductive Reached (host : Host) : Machine → Prop
  | start : Reached host (.start host)
  | activity {m m' table a o lines} : Reached host m → Activity.Ends ⟨host, table⟩ a m o →
      o.state? = some m' → Reached host { m' with lines }
  | program {m m' table ss o lines} : Reached host m → Finishes ⟨host, table⟩ ss m o →
      o.state? = some m' → Reached host { m' with lines }

theorem Machine.abreast_start (host : Host) : Machine.bare.Abreast (.start host) :=
  start_induction host (.refl _) fun _ _ _ h => ⟨h.active, h.depth⟩

/-- Between runs the global frame is active, and no call goes on. -/
theorem Reached.abreast {host : Host} (h : Reached host m) : Machine.bare.Abreast m := by
  induction h with
  | start => exact Machine.abreast_start host
  | activity _ hends hs ih =>
    have hm := ih.trans (hends.stays _ hs)
    exact ⟨hm.active, hm.depth⟩
  | program _ hends hs ih =>
    have hm := ih.trans (hends.stays _ hs)
    exact ⟨hm.active, hm.depth⟩

/-- Calls in a run of a program from a machine. -/
structure CallsLimited (context : Context) (ss : List Stmt) (m : Machine) : Prop where
  /-- The depth is the number of bodies that are being executed. -/
  counted : ∀ path a m', Occurs context ss m path a m' →
    m'.depth = bodies path ∧ bodies path ≤ maxCallDepth
  /-- A call expression begins a call when it has as many values as the function takes. -/
  begun : ∀ path callee paren arguments m₁ m₂ m₃ identity function (values : List Value),
    Occurs context ss m path (.evaluate (.call callee paren arguments)) m₁ →
      Activity.Ends context (.evaluate callee) m₁ (.ok (.callable identity function) m₂) →
      Activity.Ends context (.evaluateAll arguments) m₂ (.ok values m₃) →
      values.length = function.arity →
      Occurs context ss m (path ++ [(.evaluate (.call callee paren arguments), 2)])
        (.call function paren values) m₃
  /-- No call is begun with more values or fewer. -/
  fitting : ∀ path function paren values m',
    Occurs context ss m path (.call function paren values) m' → values.length = function.arity
  /-- A call begins the body of the function while fewer bodies go on than may. -/
  entered : ∀ path name params body frame paren values m',
    Occurs context ss m path (.call (.closure name params body frame) paren values) m' →
      bodies path < maxCallDepth →
      ∃ m'', Occurs context ss m
        (path ++ [(.call (.closure name params body frame) paren values, 0)]) (.executeAll body) m''
  /-- When as many bodies go on as may, a call ends the run with a fault. -/
  refused : ∀ path name params body frame paren values m',
    Occurs context ss m path (.call (.closure name params body frame) paren values) m' →
      bodies path = maxCallDepth →
      ∃ m'', Finishes context ss m
        (.error (.fault (.atToken (.callsTooDeep maxCallDepth) paren)) m'')
  /-- A run ends with this fault for no other reason. -/
  raised : ∀ d limit m', d.cause = .callsTooDeep limit →
    Finishes context ss m (.error (.fault d) m') →
      ∃ path name params body frame paren values m'',
        Occurs context ss m path (.call (.closure name params body frame) paren values) m'' ∧
          bodies path = maxCallDepth ∧ d = .atToken (.callsTooDeep maxCallDepth) paren
  /-- However the run ends, the global frame is active then, and no call goes on. -/
  restored : ∀ o m', Finishes context ss m o → o.state? = some m' →
    m'.active = Store.globalFrame ∧ m'.depth = 0

theorem callsLimited (hh : context.host.Shallow) (hm : Machine.bare.Abreast m) (ss : List Stmt) :
    CallsLimited context ss m := by
  have hdepth : ∀ {path a m'}, Occurs context ss m path a m' → m'.depth = bodies path :=
    fun h => by rw [h.depth_eq, hm.depth]; exact Nat.zero_add _
  have hle : ∀ {path a m'}, Occurs context ss m path a m' → bodies path ≤ maxCallDepth :=
    fun h => hdepth h ▸ h.depth_le (hm.depth ▸ Nat.zero_le _)
  constructor
  case counted => exact fun path a m' h => ⟨hdepth h, hle h⟩
  case begun =>
    rintro path callee paren arguments m₁ m₂ m₃ identity function values ⟨st, m₀, harrives, hcomes⟩
      hcallee harguments hcount
    refine ⟨st, m₀, harrives, hcomes.part ⟨_, _, hcallee, _, _, harguments, ?_⟩⟩
    show Course.Part context (if values.length = function.arity then _ else _) 0 _ _
    rw [if_pos hcount]
    exact ⟨rfl, rfl⟩
  case fitting => exact fun path function paren values m' h => h.fitting hh
  case entered =>
    rintro path name params body frame paren values m' ⟨st, m₁, harrives, hcomes⟩ hlt
    have hroom : m'.depth < maxCallDepth := by
      rw [hdepth ⟨st, m₁, harrives, hcomes⟩]
      exact hlt
    exact ⟨_, st, m₁, harrives, hcomes.part (Activity.call_enters hroom)⟩
  case refused =>
    intro path name params body frame paren values m' h hfull
    exact h.error (Activity.ends_overflow (Nat.le_of_eq (hfull.symm.trans (hdepth h).symm)))
  case raised =>
    intro d limit m' hd h
    obtain ⟨path, name, params, body, frame, paren, values, s, hoccurs, hs, heq⟩ :=
      h.tooDeep hh ⟨limit, hd⟩
    have hfull : bodies path = maxCallDepth :=
      Nat.le_antisymm (hle hoccurs) (hdepth hoccurs ▸ hs)
    exact ⟨path, name, params, body, frame, paren, values, s, hoccurs, hfull, Stop.fault.inj heq⟩
  case restored =>
    intro o m' h ho
    have hend := hm.trans (h.stays m' ho)
    exact ⟨hend.active, hend.depth⟩

/-- Everything ends in the frame and at the depth in which it was begun, and in every machine that can
be reached calls are counted and limited. -/
theorem depth_restored_and_limited (reading : Nat → Except String Float) :
    (∀ context n (a : Activity) m, (a.run context n m).Stays m) ∧
    (∀ context n f body m, (Run.inFrame f (Run.executeAll context n body) m).Stays m) ∧
    (∀ context n paren f body m,
      (Run.inCall paren (Run.inFrame f (Run.executeAll context n body)) m).Stays m) ∧
    ∀ m, Reached (.timed reading) m → ∀ table ss, CallsLimited ⟨.timed reading, table⟩ ss m := by
  have hframe : ∀ context n f body m,
      (Run.inFrame f (Run.executeAll context n body) m).Stays m := by
    intro context n f body m s hs
    rw [Run.inFrame_eq, Outcome.state?_mapState] at hs
    obtain ⟨t, ht, rfl⟩ := Option.map_eq_some_iff.1 hs
    exact ⟨rfl, (Activity.run_stays n (.executeAll body) _ t ht).depth⟩
  refine ⟨fun context n a m => Activity.run_stays n a m, hframe, ?_, fun m hm table ss =>
    callsLimited (Host.shallow_timed reading) hm.abreast ss⟩
  intro context n paren f body m
  rw [Run.inCall_eq]
  split
  · exact Run.stays_fault _ paren (.refl m)
  · intro s hs
    rw [Outcome.state?_mapState] at hs
    obtain ⟨t, ht, rfl⟩ := Option.map_eq_some_iff.1 hs
    have hbody := hframe context n f body { m with depth := m.depth + 1 } t ht
    exact ⟨hbody.active, by rw [hbody.depth]; rfl⟩

/-- While the body of a function is executed that is called at once, one call goes on. -/
theorem depth_in_body_of_call :
    let paren : Token := ⟨.closeParen, ")", none, 1⟩
    let e : Expr := .call (.function paren [] []) paren []
    ∃ path m', Occurs ⟨.timed fun _ => .ok 0, {}⟩ [.expression e] (.start (.timed fun _ => .ok 0))
      path (.executeAll []) m' ∧ bodies path = 1 ∧ m'.depth = 1 := by
  intro paren e
  have limited := (depth_restored_and_limited fun _ => .ok 0).2.2.2 _ .start {} [.expression e]
  have hbegun := limited.begun [(.execute (.expression e), 0)] (.function paren [] []) paren []
    _ _ _ _ _ [] ⟨_, _, ⟨[], [], rfl, 1, rfl⟩, .within ⟨rfl, rfl⟩ (.start _ _)⟩
    (Activity.ends_of_ok (n := 1) rfl) (Activity.ends_of_ok (n := 1) rfl) rfl
  obtain ⟨m', hbody⟩ := limited.entered _ _ _ _ _ _ _ _ hbegun (by decide)
  exact ⟨_, m', hbody, rfl, (limited.counted _ _ _ hbody).1⟩
end LoxLang
