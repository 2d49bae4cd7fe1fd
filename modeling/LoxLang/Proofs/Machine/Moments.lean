import LoxLang.Proofs.Machine.Activity

/-!
The moments of a run.

A greater bound changes nothing (`run_mono`), so how an activity ends is a matter of its course alone
(`ends_iff`).  The moments of a run are the parts of the parts of what is run (`Comes`), whether the
run comes to an end or not; the path to a moment shows the calls that are going on.
-/

namespace LoxLang

/-! ## Bounds -/

theorem Course.carry_mono {α : Type} {run run' : (a : Activity) → Run a.Result}
    (h : ∀ a m, run a m ≠ .exhausted → run' a m = run a m) {c : Course α}
    (hc : c.carry run ≠ .exhausted) : c.carry run' = c.carry run := by
  induction c with
  | ends o => rfl
  | part a m leave next ih =>
    rw [carry] at hc
    have ha : run a m ≠ .exhausted := fun he => hc (by rw [he])
    rw [carry, carry, h a m ha]
    generalize run a m = o at hc ha
    cases o with
    | ok v s => exact ih v (leave s) hc
    | error e s => rfl
    | exhausted => exact absurd rfl ha

namespace Activity

variable {context : Context} {n k : Nat} {a : Activity} {m : Machine}

/-- A greater bound changes nothing. -/
theorem run_mono {o : Outcome Stop Machine a.Result} (hle : n ≤ k) (h : a.run context n m = o)
    (ho : o ≠ .exhausted) : a.run context k m = o := by
  induction n generalizing k a m with
  | zero => exact absurd (h.symm.trans (run_zero a m)) ho
  | succ n ih =>
    obtain ⟨k, rfl⟩ := Nat.exists_eq_add_of_le' (Nat.le_trans (Nat.le_add_left 1 n) hle)
    have hrun : ∀ (a : Activity) m, a.run context n m ≠ .exhausted →
        a.run context k m = a.run context n m :=
      fun _ _ hne => ih (Nat.le_of_succ_le_succ hle) rfl hne
    rw [run_succ] at h
    rw [run_succ, Course.carry_mono hrun (by rwa [h]), h]

/-- With a bound that is great enough the activity ends so. -/
def Ends (context : Context) (a : Activity) (m : Machine) (o : Outcome Stop Machine a.Result) :
    Prop :=
  o ≠ .exhausted ∧ ∃ n, a.run context n m = o

theorem ends_of_ok {v : a.Result} {s : Machine} (h : a.run context n m = .ok v s) :
    a.Ends context m (.ok v s) :=
  ⟨Outcome.ok_ne_exhausted v s, n, h⟩

theorem ends_of_error {e : Stop} {s : Machine} (h : a.run context n m = .error e s) :
    a.Ends context m (.error e s) :=
  ⟨Outcome.error_ne_exhausted e s, n, h⟩

theorem Ends.unique {o o' : Outcome Stop Machine a.Result} (h : Ends context a m o)
    (h' : Ends context a m o') : o = o' := by
  obtain ⟨hne, n, hn⟩ := h
  obtain ⟨hne', k, hk⟩ := h'
  rcases Nat.le_total n k with hle | hle
  · exact (run_mono hle hn hne).symm.trans hk
  · exact hn.symm.trans (run_mono hle hk hne')

end Activity

namespace Course

variable {α : Type} {context : Context} {n k : Nat} {c : Course α}
  {o : Outcome Stop Machine α}

/-- The course goes to this end. -/
def Ends (context : Context) (c : Course α) (o : Outcome Stop Machine α) : Prop :=
  o ≠ .exhausted ∧ ∃ n, c.carry (Activity.run context n) = o

theorem carry_bound_mono (hle : n ≤ k) (h : c.carry (Activity.run context n) = o)
    (ho : o ≠ .exhausted) : c.carry (Activity.run context k) = o :=
  (carry_mono (fun _ _ hne => Activity.run_mono hle rfl hne) (by rwa [h])).trans h

theorem ends_ends {o' : Outcome Stop Machine α} :
    (ends o').Ends context o ↔ o ≠ .exhausted ∧ o' = o :=
  ⟨fun ⟨hne, _, h⟩ => ⟨hne, h⟩, fun ⟨hne, h⟩ => ⟨hne, 0, h⟩⟩

variable {a : Activity} {m : Machine} {leave : Machine → Machine}
  {next : a.Result → Machine → Course α}

/-- A course goes on behind a part that is through. -/
theorem ends_part_ok {v : a.Result} {s : Machine} (ha : a.Ends context m (.ok v s)) :
    (part a m leave next).Ends context o ↔ (next v (leave s)).Ends context o := by
  obtain ⟨-, n, hn⟩ := ha
  have hcarry : ∀ k, n ≤ k → (part a m leave next).carry (Activity.run context k) =
      (next v (leave s)).carry (Activity.run context k) := by
    intro k hle
    rw [carry, Activity.run_mono hle hn (Outcome.ok_ne_exhausted v s)]
  constructor
  · rintro ⟨hne, k, hk⟩
    exact ⟨hne, max n k, (hcarry _ (Nat.le_max_left n k)).symm.trans
      (carry_bound_mono (Nat.le_max_right n k) hk hne)⟩
  · rintro ⟨hne, k, hk⟩
    exact ⟨hne, max n k, (hcarry _ (Nat.le_max_left n k)).trans
      (carry_bound_mono (Nat.le_max_right n k) hk hne)⟩

/-- A fault in a part is the fault of the whole. -/
theorem ends_part_error {e : Stop} {s : Machine} (ha : a.Ends context m (.error e s)) :
    (part a m leave next).Ends context (.error e (leave s)) := by
  obtain ⟨-, n, hn⟩ := ha
  exact ⟨Outcome.error_ne_exhausted e _, n, by rw [carry, hn]⟩

/-- A course that ends is through with its first part. -/
theorem Ends.part (h : (part a m leave next).Ends context o) :
    (∃ v s, a.Ends context m (.ok v s) ∧ (next v (leave s)).Ends context o) ∨
      ∃ e s, a.Ends context m (.error e s) ∧ o = .error e (leave s) := by
  obtain ⟨hne, n, hn⟩ := h
  rw [carry] at hn
  cases ha : a.run context n m with
  | ok v s =>
    rw [ha] at hn
    exact .inl ⟨v, s, Activity.ends_of_ok ha, hne, n, hn⟩
  | error e s =>
    rw [ha] at hn
    exact .inr ⟨e, s, Activity.ends_of_error ha, hn.symm⟩
  | exhausted =>
    rw [ha] at hn
    exact absurd hn.symm hne

/-- The parts that are begun, numbered from 0. -/
def Part (context : Context) : Course α → Nat → Activity → Machine → Prop
  | ends _, _, _, _ => False
  | part a m _ _, 0, b, m' => b = a ∧ m' = m
  | part a m leave next, i + 1, b, m' =>
    ∃ v s, a.Ends context m (.ok v s) ∧ (next v (leave s)).Part context i b m'

/-- Every part that is begun is good. -/
def Begins (context : Context) (good : Activity → Machine → Prop) : Course α → Prop
  | ends _ => True
  | part a m leave next =>
    good a m ∧ ∀ v s, a.Ends context m (.ok v s) → (next v (leave s)).Begins context good

theorem Begins.part {good : Activity → Machine → Prop} (h : c.Begins context good) {i : Nat}
    {b : Activity} {m' : Machine} (hpart : c.Part context i b m') : good b m' := by
  induction i generalizing c with
  | zero =>
    cases c with
    | ends o => exact hpart.elim
    | part a m leave next =>
      obtain ⟨rfl, rfl⟩ := hpart
      exact h.1
  | succ i ih =>
    cases c with
    | ends o => exact hpart.elim
    | part a m leave next =>
      obtain ⟨v, s, ha, hrest⟩ := hpart
      exact ih (h.2 v s ha) hrest

/-- A fault in any of the parts is the fault of the whole. -/
theorem Part.error {i : Nat} {b : Activity} {m' : Machine} (h : c.Part context i b m') {e : Stop}
    {s' : Machine} (hb : b.Ends context m' (.error e s')) : ∃ s, c.Ends context (.error e s) := by
  induction i generalizing c with
  | zero =>
    cases c with
    | ends o => exact h.elim
    | part a m leave next =>
      obtain ⟨rfl, rfl⟩ := h
      exact ⟨leave s', ends_part_error hb⟩
  | succ i ih =>
    cases c with
    | ends o => exact h.elim
    | part a m leave next =>
      obtain ⟨v, s, ha, hrest⟩ := h
      obtain ⟨t, ht⟩ := ih hrest
      exact ⟨t, (ends_part_ok ha).2 ht⟩

end Course

namespace Activity

variable {context : Context} {n k : Nat} {a b d : Activity} {m m' : Machine}

/-- How an activity ends is how its course ends. -/
theorem ends_iff {o : Outcome Stop Machine a.Result} :
    a.Ends context m o ↔ (a.course context m).Ends context o := by
  constructor
  · rintro ⟨hne, n, rfl⟩
    refine ⟨hne, n, ?_⟩
    rw [← run_succ]
    exact run_mono (Nat.le_succ n) rfl hne
  · rintro ⟨hne, n, hn⟩
    exact ⟨hne, n + 1, (run_succ a m).trans hn⟩

/-- The part of a call is the body of the function. -/
theorem part_call {function : Callable} {paren : Token} {values : List Value} {i : Nat}
    {b : Activity} (h : ((call function paren values).course context m).Part context i b m') :
    m.depth < maxCallDepth ∧ i = 0 ∧
      ∃ name params body frame, function = .closure name params body frame ∧
        b = .executeAll body := by
  cases function with
  | native name arity => exact h.elim
  | closure name params body frame =>
    simp only [course] at h
    split at h
    · exact h.elim
    · rename_i hdeep
      cases i with
      | zero => exact ⟨Nat.lt_of_not_le hdeep, rfl, name, params, body, frame, rfl, h.1⟩
      | succ i =>
        obtain ⟨c, s, -, hrest⟩ := h
        cases c <;> exact hrest.elim

end Activity

/-! ## Moments -/

/-- The activities around a moment, from the outermost one inward, each with the number of its part
that goes on at this moment. -/
abbrev Path := List (Activity × Nat)

/-- How many bodies of functions are being executed: as many as there are calls on the path. -/
def bodies (path : Path) : Nat := path.countP (·.1.isCall)

/-- While `a` goes on from `m`, there is a moment at which `b` is begun from `m'`; the path leads
there. -/
inductive Comes (context : Context) : Activity → Machine → Path → Activity → Machine → Prop
  | start (a m) : Comes context a m [] a m
  | within {a m i b m' path c m''} : (a.course context m).Part context i b m' →
      Comes context b m' path c m'' → Comes context a m ((a, i) :: path) c m''

variable {context : Context} {ss : List Stmt} {a b c : Activity} {m m' m'' : Machine}
  {path path' : Path} {i : Nat}

theorem Comes.trans (h : Comes context a m path b m') (h' : Comes context b m' path' c m'') :
    Comes context a m (path ++ path') c m'' := by
  induction h with
  | start _ _ => exact h'
  | within hpart _ ih => exact .within hpart (ih h')

theorem Comes.part (h : Comes context a m path b m')
    (hpart : (b.course context m').Part context i c m'') :
    Comes context a m (path ++ [(b, i)]) c m'' :=
  h.trans (.within hpart (.start c m''))

/-- A fault at any moment is the fault of the whole. -/
theorem Comes.error (h : Comes context a m path b m') {e : Stop} {s' : Machine}
    (hb : b.Ends context m' (.error e s')) : ∃ s, a.Ends context m (.error e s) := by
  induction h with
  | start _ _ => exact ⟨s', hb⟩
  | within hpart _ ih =>
    obtain ⟨t, ht⟩ := ih hb
    obtain ⟨s, hs⟩ := hpart.error ht
    exact ⟨s, Activity.ends_iff.2 hs⟩

/-! ## Programs -/

/-- All statements are executed, with a bound that is great enough. -/
def Through (context : Context) (ss : List Stmt) (m m' : Machine) : Prop :=
  ∃ n, Run.executeProgram context n ss m = .ok () m'

/-- With a bound that is great enough the program ends so. -/
def Finishes (context : Context) (ss : List Stmt) (m : Machine) (o : Outcome Stop Machine Unit) :
    Prop :=
  o ≠ .exhausted ∧ ∃ n, Run.executeProgram context n ss m = o

/-- The statements before `s` are executed, and `s` is begun from `m'`. -/
def Arrives (context : Context) (ss : List Stmt) (m : Machine) (s : Stmt) (m' : Machine) : Prop :=
  ∃ before rest, ss = before ++ s :: rest ∧ Through context before m m'

/-- While a program is executed from `m`, there is a moment at which `b` is begun from `m'`. -/
def Occurs (context : Context) (ss : List Stmt) (m : Machine) (path : Path) (b : Activity)
    (m' : Machine) : Prop :=
  ∃ s m₁, Arrives context ss m s m₁ ∧ Comes context (.execute s) m₁ path b m'

variable {s : Stmt} {rest : List Stmt} {o : Outcome Stop Machine Unit} {n k : Nat}

theorem Run.executeProgram_mono (hle : n ≤ k) (h : executeProgram context n ss m = o)
    (ho : o ≠ .exhausted) : executeProgram context k ss m = o := by
  induction ss generalizing m with
  | nil => exact h
  | cons s ss ih =>
    rw [executeProgram, Action.bind_apply] at h
    rw [executeProgram, Action.bind_apply]
    cases hs : execute context n s m with
    | ok c m₁ =>
      rw [hs] at h
      rw [show execute context k s m = .ok c m₁ from
        Activity.run_mono (a := .execute s) hle hs (Outcome.ok_ne_exhausted c m₁)]
      exact ih h
    | error e m₁ =>
      rw [hs] at h
      rw [show execute context k s m = .error e m₁ from
        Activity.run_mono (a := .execute s) hle hs (Outcome.error_ne_exhausted e m₁)]
      exact h
    | exhausted =>
      rw [hs] at h
      exact absurd h.symm ho

/-- A statement that ends, and then a program. -/
theorem Run.exists_executeProgram_cons {c : Completion} {m₁ : Machine}
    (hs : (Activity.execute s).Ends context m (.ok c m₁)) (ho : o ≠ .exhausted)
    (h : executeProgram context k ss m₁ = o) : ∃ n, executeProgram context n (s :: ss) m = o := by
  obtain ⟨-, n, hn⟩ := hs
  have hs : execute context (max n k) s m = .ok c m₁ :=
    Activity.run_mono (Nat.le_max_left n k) hn (Outcome.ok_ne_exhausted c m₁)
  refine ⟨max n k, ?_⟩
  rw [executeProgram, Action.bind_apply, hs]
  exact executeProgram_mono (Nat.le_max_right n k) h ho

theorem through_cons :
    Through context (s :: ss) m m' ↔
      ∃ c m₁, (Activity.execute s).Ends context m (.ok c m₁) ∧ Through context ss m₁ m' := by
  constructor
  · rintro ⟨n, hn⟩
    rw [Run.executeProgram, Action.bind_apply] at hn
    cases hs : Run.execute context n s m with
    | ok c m₁ =>
      rw [hs] at hn
      exact ⟨c, m₁, Activity.ends_of_ok hs, n, hn⟩
    | error e m₁ =>
      rw [hs] at hn
      cases hn
    | exhausted =>
      rw [hs] at hn
      cases hn
  · rintro ⟨c, m₁, hs, k, hk⟩
    exact Run.exists_executeProgram_cons hs (Outcome.ok_ne_exhausted () m') hk

theorem Arrives.cons {c : Completion} {m₁ : Machine}
    (hs : (Activity.execute s).Ends context m (.ok c m₁)) {s' : Stmt}
    (h : Arrives context ss m₁ s' m') : Arrives context (s :: ss) m s' m' := by
  obtain ⟨before, rest, rfl, hthrough⟩ := h
  exact ⟨s :: before, rest, rfl, through_cons.2 ⟨c, m₁, hs, hthrough⟩⟩

/-- A program ends with the fault of one of its statements. -/
theorem finishes_error_iff {e : Stop} :
    Finishes context ss m (.error e m') ↔
      ∃ s m₁, Arrives context ss m s m₁ ∧ (Activity.execute s).Ends context m₁ (.error e m') := by
  constructor
  · rintro ⟨-, n, hn⟩
    induction ss generalizing m with
    | nil => cases hn
    | cons s ss ih =>
      rw [Run.executeProgram, Action.bind_apply] at hn
      cases hs : Run.execute context n s m with
      | ok c m₁ =>
        rw [hs] at hn
        obtain ⟨s', m₂, harrives, hends⟩ := ih hn
        exact ⟨s', m₂, harrives.cons (Activity.ends_of_ok hs), hends⟩
      | error e' m₁ =>
        rw [hs] at hn
        cases hn
        exact ⟨s, m, ⟨[], ss, rfl, 0, rfl⟩, Activity.ends_of_error hs⟩
      | exhausted =>
        rw [hs] at hn
        cases hn
  · rintro ⟨s, m₁, ⟨before, rest, rfl, hthrough⟩, hends⟩
    refine ⟨Outcome.error_ne_exhausted e m', ?_⟩
    induction before generalizing m with
    | nil =>
      obtain ⟨_, hm⟩ := hthrough
      cases hm
      obtain ⟨-, n, hn⟩ := hends
      refine ⟨n, ?_⟩
      rw [List.nil_append, Run.executeProgram, Action.bind_apply]
      rw [show Run.execute context n s _ = _ from hn]
    | cons s' before ih =>
      obtain ⟨c, m₂, hs, hrest⟩ := through_cons.1 hthrough
      obtain ⟨k, hk⟩ := ih hrest
      exact Run.exists_executeProgram_cons hs (Outcome.error_ne_exhausted e m') hk

/-- What each statement preserves holds wherever the program has arrived. -/
theorem Through.preserves {P : Machine → Prop} (h : Through context ss m m') (hm : P m)
    (hstep : ∀ s m c m', P m → (Activity.execute s).Ends context m (.ok c m') → P m') : P m' := by
  induction ss generalizing m with
  | nil =>
    obtain ⟨_, hn⟩ := h
    cases hn
    exact hm
  | cons s ss ih =>
    obtain ⟨c, m₁, hs, hrest⟩ := through_cons.1 h
    exact ih hrest (hstep s _ c m₁ hm hs)

end LoxLang
