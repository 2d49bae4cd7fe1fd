import LoxLang.Outcome

/-!
What a computation leads to, stated of its outcome.

`Meets` gives a condition for each of the three ways a computation may end: with a value, with a
failure, or short of steps.  `meets_bind` is the rule for one computation after another, so a
function that is a sequence of steps is treated step by step, from the conditions of the steps.
`Matches` compares two computations, on states that may be of different types, in the same way;
`Agrees` asks for the same failures besides.
-/

namespace LoxLang

variable {ε σ τ α β γ δ : Type}

namespace Outcome

/-- A value meets `good`, a failure meets `bad`, and the steps run out only if `short`. -/
def Meets (o : Outcome ε σ α) (good : α → σ → Prop) (bad : ε → σ → Prop) (short : Prop) : Prop :=
  match o with
  | .ok a s => good a s
  | .error e s => bad e s
  | .exhausted => short

variable {good good' : α → σ → Prop} {bad bad' : ε → σ → Prop} {short short' : Prop}

theorem Meets.mono {o : Outcome ε σ α} (h : o.Meets good bad short)
    (hg : ∀ a s, good a s → good' a s) (hb : ∀ e s, bad e s → bad' e s) (hs : short → short') :
    o.Meets good' bad' short' := by
  cases o with
  | ok a s => exact hg a s h
  | error e s => exact hb e s h
  | exhausted => exact hs h

theorem Meets.steps {o : Outcome ε σ α} (h : o.Meets good bad short) (hs : short → short') :
    o.Meets good bad short' :=
  h.mono (fun _ _ => id) (fun _ _ => id) hs

/-- A value meets `good`, there is no failure, and the steps run out only if `short`. -/
abbrev Succeeds (o : Outcome ε σ α) (good : α → σ → Prop) (short : Prop) : Prop :=
  o.Meets good (fun _ _ => False) short

/-- What cannot fail meets any condition on failures. -/
theorem Succeeds.meets {o : Outcome ε σ α} (h : o.Succeeds good short) : o.Meets good bad short :=
  h.mono (fun _ _ => id) (fun _ _ hf => hf.elim) id

/-- Both give values that meet `good`, or both fail with the same error and meet `bad`, or both run
short of steps. -/
def Agrees (o : Outcome ε σ α) (p : Outcome ε τ β) (good : α → σ → β → τ → Prop)
    (bad : σ → τ → Prop) : Prop :=
  match o, p with
  | .ok a s, .ok b t => good a s b t
  | .error e s, .error e' t => e = e' ∧ bad s t
  | .exhausted, .exhausted => True
  | _, _ => False

/-- Both give values that meet `good`, or both fail and meet `bad`, or both run short of steps. -/
def Matches {ε' : Type} (o : Outcome ε σ α) (p : Outcome ε' τ β) (good : α → σ → β → τ → Prop)
    (bad : ε → σ → ε' → τ → Prop) : Prop :=
  match o, p with
  | .ok a s, .ok b t => good a s b t
  | .error e s, .error e' t => bad e s e' t
  | .exhausted, .exhausted => True
  | _, _ => False

theorem agrees_iff_matches {o : Outcome ε σ α} {p : Outcome ε τ β}
    {good : α → σ → β → τ → Prop} {bad : σ → τ → Prop} :
    o.Agrees p good bad ↔ o.Matches p good fun e s e' t => e = e' ∧ bad s t := by
  cases o <;> cases p <;> exact Iff.rfl

/-- Outcomes that match are of the same kind. -/
theorem Matches.alike {ε' : Type} {o : Outcome ε σ α} {p : Outcome ε' τ β}
    {good : α → σ → β → τ → Prop} {bad : ε → σ → ε' → τ → Prop} (h : o.Matches p good bad) :
    (∃ a s b t, o = .ok a s ∧ p = .ok b t ∧ good a s b t) ∨
      (∃ e s e' t, o = .error e s ∧ p = .error e' t ∧ bad e s e' t) ∨
      o = .exhausted ∧ p = .exhausted := by
  cases o with
  | ok a s =>
    cases p with
    | ok b t => exact .inl ⟨a, s, b, t, rfl, rfl, h⟩
    | error e t => exact h.elim
    | exhausted => exact h.elim
  | error e s =>
    cases p with
    | ok b t => exact h.elim
    | error e' t => exact .inr (.inl ⟨e, s, e', t, rfl, rfl, h⟩)
    | exhausted => exact h.elim
  | exhausted =>
    cases p with
    | ok b t => exact h.elim
    | error e t => exact h.elim
    | exhausted => exact .inr (.inr ⟨rfl, rfl⟩)

theorem Matches.mono {ε' : Type} {o : Outcome ε σ α} {p : Outcome ε' τ β}
    {good good' : α → σ → β → τ → Prop} {bad bad' : ε → σ → ε' → τ → Prop}
    (h : o.Matches p good bad) (hg : ∀ a s b t, good a s b t → good' a s b t)
    (hb : ∀ e s e' t, bad e s e' t → bad' e s e' t) : o.Matches p good' bad' := by
  rcases h.alike with ⟨a, s, b, t, rfl, rfl, h⟩ | ⟨e, s, e', t, rfl, rfl, h⟩ | ⟨rfl, rfl⟩
  · exact hg a s b t h
  · exact hb e s e' t h
  · exact trivial

theorem Matches.ok {ε' : Type} {a : α} {s : σ} {p : Outcome ε' τ β}
    {good : α → σ → β → τ → Prop} {bad : ε → σ → ε' → τ → Prop}
    (h : (Outcome.ok a s).Matches p good bad) : ∃ b t, p = .ok b t ∧ good a s b t := by
  cases p with
  | ok b t => exact ⟨b, t, rfl, h⟩
  | error e t => exact h.elim
  | exhausted => exact h.elim

theorem Agrees.mono {o : Outcome ε σ α} {p : Outcome ε τ β} {good good' : α → σ → β → τ → Prop}
    {bad bad' : σ → τ → Prop} (h : o.Agrees p good bad)
    (hg : ∀ a s b t, good a s b t → good' a s b t) (hb : ∀ s t, bad s t → bad' s t) :
    o.Agrees p good' bad' :=
  agrees_iff_matches.2 ((agrees_iff_matches.1 h).mono hg fun _ s _ t he => ⟨he.1, hb s t he.2⟩)

section

variable {ω : Type} {o : Outcome ε σ α} {p : Outcome ε τ β} {q : Outcome ε ω γ}
  {good : α → σ → β → τ → Prop} {bad : σ → τ → Prop}

/-- Outcomes that agree are of the same kind. -/
theorem Agrees.alike (h : o.Agrees p good bad) :
    (∃ a s b t, o = .ok a s ∧ p = .ok b t ∧ good a s b t) ∨
      (∃ e s t, o = .error e s ∧ p = .error e t ∧ bad s t) ∨ o = .exhausted ∧ p = .exhausted := by
  rcases (agrees_iff_matches.1 h).alike with hok | ⟨e, s, _, t, rfl, rfl, rfl, hbad⟩ | hshort
  · exact .inl hok
  · exact .inr (.inl ⟨e, s, t, rfl, rfl, hbad⟩)
  · exact .inr (.inr hshort)

theorem Agrees.ok {a : α} {s : σ} (h : (Outcome.ok a s).Agrees p good bad) :
    ∃ b t, p = .ok b t ∧ good a s b t :=
  (agrees_iff_matches.1 h).ok

theorem Agrees.error {e : ε} {s : σ} (h : (Outcome.error e s).Agrees p good bad) :
    ∃ t, p = .error e t ∧ bad s t := by
  cases p with
  | ok b t => exact h.elim
  | error e' t =>
    obtain ⟨rfl, hbad⟩ := h
    exact ⟨t, rfl, hbad⟩
  | exhausted => exact h.elim

theorem Agrees.exhausted_iff (h : o.Agrees p good bad) : o = .exhausted ↔ p = .exhausted := by
  rcases h.alike with ⟨a, s, b, t, rfl, rfl, -⟩ | ⟨e, s, t, rfl, rfl, -⟩ | ⟨rfl, rfl⟩
  · simp only [reduceCtorEq]
  · simp only [reduceCtorEq]
  · simp only

theorem Agrees.symm (h : o.Agrees p good bad) :
    p.Agrees o (fun b t a s => good a s b t) fun t s => bad s t := by
  rcases h.alike with ⟨a, s, b, t, rfl, rfl, hgood⟩ | ⟨e, s, t, rfl, rfl, hbad⟩ | ⟨rfl, rfl⟩
  · exact hgood
  · exact ⟨rfl, hbad⟩
  · exact trivial

theorem Agrees.trans {good' : β → τ → γ → ω → Prop} {bad' : τ → ω → Prop}
    {both : α → σ → γ → ω → Prop} {failed : σ → ω → Prop} (h : o.Agrees p good bad)
    (h' : p.Agrees q good' bad')
    (hg : ∀ a s b t c u, good a s b t → good' b t c u → both a s c u)
    (hb : ∀ s t u, bad s t → bad' t u → failed s u) : o.Agrees q both failed := by
  rcases h.alike with ⟨a, s, b, t, rfl, rfl, hgood⟩ | ⟨e, s, t, rfl, rfl, hbad⟩ | ⟨rfl, rfl⟩
  · obtain ⟨c, u, rfl, hgood'⟩ := h'.ok
    exact hg a s b t c u hgood hgood'
  · cases q with
    | error e' u => exact ⟨h'.1, hb s t u hbad h'.2⟩
    | _ => exact h'.elim
  · cases q with
    | exhausted => exact trivial
    | _ => exact h'.elim

end

theorem ok_ne_exhausted (a : α) (s : σ) : (.ok a s : Outcome ε σ α) ≠ .exhausted := by
  intro h
  cases h

theorem error_ne_exhausted (e : ε) (s : σ) : (.error e s : Outcome ε σ α) ≠ .exhausted := by
  intro h
  cases h

theorem Meets.ne_exhausted {o : Outcome ε σ α} (h : o.Meets good bad short) (hs : ¬short) :
    o ≠ .exhausted := by
  rintro rfl
  exact hs h

/-- The state that has been reached, unless the steps run out. -/
def state? : Outcome ε σ α → Option σ
  | .ok _ s => some s
  | .error _ s => some s
  | .exhausted => none

/-- Outcomes that match have reached states that do. -/
theorem Matches.state? {ε' : Type} {o : Outcome ε σ α} {p : Outcome ε' τ β}
    {good : α → σ → β → τ → Prop} {bad : ε → σ → ε' → τ → Prop} {R : σ → τ → Prop}
    (h : o.Matches p good bad) (hg : ∀ a s b t, good a s b t → R s t)
    (hb : ∀ e s e' t, bad e s e' t → R s t) : Option.Rel R o.state? p.state? := by
  rcases h.alike with ⟨a, s, b, t, rfl, rfl, h⟩ | ⟨e, s, e', t, rfl, rfl, h⟩ | ⟨rfl, rfl⟩
  · exact .some (hg a s b t h)
  · exact .some (hb e s e' t h)
  · exact .none

theorem Meets.state? {o : Outcome ε σ α} {s : σ} (h : o.Meets good bad short)
    (hs : o.state? = some s) {good' : σ → Prop} (hg : ∀ a s, good a s → good' s)
    (hb : ∀ e s, bad e s → good' s) : good' s := by
  cases o with
  | ok a t =>
    cases hs
    exact hg a s h
  | error e t =>
    cases hs
    exact hb e s h
  | exhausted => cases hs

/-- The outcome with its state changed. -/
def mapState (h : σ → τ) : Outcome ε σ α → Outcome ε τ α
  | .ok a s => .ok a (h s)
  | .error e s => .error e (h s)
  | .exhausted => .exhausted

theorem meets_mapState {h : σ → τ} {o : Outcome ε σ α} {good : α → τ → Prop} {bad : ε → τ → Prop}
    {short : Prop} :
    (o.mapState h).Meets good bad short ↔
      o.Meets (fun a s => good a (h s)) (fun e s => bad e (h s)) short := by
  cases o <;> exact Iff.rfl

theorem matches_mapState {ε' ω : Type} {h : σ → ω} {k : τ → γ} {o : Outcome ε σ α}
    {p : Outcome ε' τ β} {good : α → ω → β → γ → Prop} {bad : ε → ω → ε' → γ → Prop} :
    (o.mapState h).Matches (p.mapState k) good bad ↔
      o.Matches p (fun a s b t => good a (h s) b (k t)) fun e s e' t => bad e (h s) e' (k t) := by
  cases o <;> cases p <;> exact Iff.rfl

theorem agrees_mapState {ω : Type} {h : σ → ω} {k : τ → γ} {o : Outcome ε σ α}
    {p : Outcome ε τ β} {good : α → ω → β → γ → Prop} {bad : ω → γ → Prop} :
    (o.mapState h).Agrees (p.mapState k) good bad ↔
      o.Agrees p (fun a s b t => good a (h s) b (k t)) fun s t => bad (h s) (k t) := by
  cases o <;> cases p <;> exact Iff.rfl

@[simp] theorem mapState_id (o : Outcome ε σ α) : o.mapState id = o := by
  cases o <;> rfl

theorem state?_mapState (h : σ → τ) (o : Outcome ε σ α) : (o.mapState h).state? = o.state?.map h := by
  cases o <;> rfl

theorem mapState_mapState (h : σ → τ) (k : τ → γ) (o : Outcome ε σ α) :
    (o.mapState h).mapState k = o.mapState fun s => k (h s) := by
  cases o <;> rfl

end Outcome

namespace Action

open Outcome

variable {good : β → σ → Prop} {bad : ε → σ → Prop} {short : Prop}

/-- One computation after another: what the first one leads to is where the second one starts. -/
theorem meets_bind {x : Action ε σ α} {f : α → Action ε σ β} {s : σ} :
    ((x >>= f) s).Meets good bad short ↔
      (x s).Meets (fun a t => (f a t).Meets good bad short) bad short := by
  rw [bind_apply]
  cases x s <;> exact Iff.rfl

/-- A computation that cannot fail, and one after it. -/
theorem succeeds_bind {x : Action ε σ α} {f : α → Action ε σ β} {s : σ} {good' : α → σ → Prop}
    {short' : Prop} (hx : (x s).Succeeds good' short') (hs : short' → short)
    (hf : ∀ a t, good' a t → (f a t).Meets good bad short) :
    ((x >>= f) s).Meets good bad short :=
  meets_bind.2 (hx.mono hf (fun _ _ h => h.elim) hs)

theorem meets_attempt {x : Action ε σ α} {s : σ} {good : Except ε α → σ → Prop} :
    (attempt x s).Meets good bad short ↔
      (x s).Meets (fun a t => good (.ok a) t) (fun e t => good (.error e) t) short := by
  rw [attempt]
  cases x s <;> exact Iff.rfl

theorem bind_ok {x : Action ε σ α} {f : α → Action ε σ β} {s t : σ} {a : α} (h : x s = .ok a t) :
    (x >>= f) s = f a t := by
  rw [bind_apply, h]

/-- What gives a value in the end has given one first. -/
theorem exists_of_bind_eq_ok {x : Action ε σ α} {f : α → Action ε σ β} {s u : σ} {b : β}
    (h : (x >>= f) s = .ok b u) : ∃ a t, x s = .ok a t ∧ f a t = .ok b u := by
  rw [bind_apply] at h
  cases hx : x s with
  | ok a t =>
    rw [hx] at h
    exact ⟨a, t, rfl, h⟩
  | error e t =>
    rw [hx] at h
    cases h
  | exhausted =>
    rw [hx] at h
    cases h

/-- Two computations that match, with computations after them that match. -/
theorem matches_bind {ε' : Type} {x : Action ε σ α} {y : Action ε' τ β} {f : α → Action ε σ γ}
    {g : β → Action ε' τ δ} {s : σ} {t : τ} {first : α → σ → β → τ → Prop}
    {good : γ → σ → δ → τ → Prop} {bad : ε → σ → ε' → τ → Prop}
    (h : (x s).Matches (y t) first bad)
    (hk : ∀ a s b t, first a s b t → (f a s).Matches (g b t) good bad) :
    ((x >>= f) s).Matches ((y >>= g) t) good bad := by
  rw [bind_apply, bind_apply]
  rcases h.alike with ⟨a, s', b, t', hx, hy, hfirst⟩ | ⟨e, s', e', t', hx, hy, hbad⟩ | ⟨hx, hy⟩
  · rw [hx, hy]
    exact hk a s' b t' hfirst
  · rw [hx, hy]
    exact hbad
  · rw [hx, hy]
    exact trivial

/-- Two computations that agree, with computations after them that agree. -/
theorem agrees_bind {x : Action ε σ α} {y : Action ε τ β} {f : α → Action ε σ γ}
    {g : β → Action ε τ δ} {s : σ} {t : τ} {first : α → σ → β → τ → Prop}
    {good : γ → σ → δ → τ → Prop} {bad : σ → τ → Prop} (h : (x s).Agrees (y t) first bad)
    (hk : ∀ a s b t, first a s b t → (f a s).Agrees (g b t) good bad) :
    ((x >>= f) s).Agrees ((y >>= g) t) good bad :=
  agrees_iff_matches.2 (matches_bind (agrees_iff_matches.1 h) fun a s b t hf =>
    agrees_iff_matches.1 (hk a s b t hf))

end Action

end LoxLang
