import LoxLang.Proofs.Syntax.Passage

/-!
Reading to a given place.

`Reaches fits r s us` says that the reading `s` has come from `r` to where the tokens `us` are ahead,
and has recorded nothing on the way but lists that are too long; not even that, if the lengths that
`fits` allows are no more than the limit.
-/

namespace LoxLang

namespace Reading

/-- A fault that leaves the tree as it is: a list is too long. -/
def Lengthy (e : TokenError) : Prop :=
  e.cause = .tooManyArguments ∨ e.cause = .tooManyParameters

structure Reaches (fits : Nat → Prop) (r s : Reading) (us : List Token) : Prop where
  closed : s.cursor.Closed
  ahead : s.cursor.ahead = us
  faults : ∃ new, s.faults = new ++ r.faults ∧ (∀ e ∈ new, Lengthy e) ∧
    ((∀ k, fits k → k ≤ maxArity) → new = [])

variable {fits : Nat → Prop} {r s t : Reading} {us vs : List Token}

theorem Reaches.refl (hr : r.cursor.Closed) (ha : r.cursor.ahead = us) : Reaches fits r r us :=
  ⟨hr, ha, [], rfl, fun _ he => (List.not_mem_nil he).elim, fun _ => rfl⟩

theorem Reaches.trans (h : Reaches fits r s us) (h' : Reaches fits s t vs) :
    Reaches fits r t vs := by
  obtain ⟨new, hn, hl, hq⟩ := h.faults
  obtain ⟨new', hn', hl', hq'⟩ := h'.faults
  refine ⟨h'.closed, h'.ahead, new' ++ new, ?_, ?_, ?_⟩
  · rw [hn', hn, List.append_assoc]
  · intro e he
    rcases List.mem_append.1 he with he | he
    · exact hl' e he
    · exact hl e he
  · intro hf
    rw [hq hf, hq' hf, List.append_nil]

end Reading

namespace Read

open Reading Outcome

variable {r : Reading} {t : Token} {us : List Token} {β : Type}
  {good : β → Reading → Prop} {bad : TokenError → Reading → Prop} {short : Prop}

theorem kind_eq_of_ahead {ts : List Token} (h : r.cursor.ahead = ts) :
    r.cursor.kind = firstKind ts := by
  rw [Cursor.kind_eq, h]

theorem Passes.reaches {fits : Nat → Prop} {s : Reading} (h : Passes r s t) (ha : r.cursor.ahead = t :: us) :
    Reaches fits r s us := by
  refine ⟨h.closed, ?_, [], h.faults, fun _ he => (List.not_mem_nil he).elim, fun _ => rfl⟩
  exact (List.cons.inj (h.ahead.symm.trans ha)).2

theorem advance_bind (fits : Nat → Prop) {f : Token → Read β} (hr : r.cursor.Closed) (ha : r.cursor.ahead = t :: us)
    (hf : ∀ s, Reaches fits r s us → (f t s).Meets good bad short) :
    ((advance >>= f) r).Meets good bad short := by
  obtain ⟨hc, hk⟩ := Cursor.current_of_ahead ha
  have hp := passes_behindCurrent hr hk
  rw [Action.bind_ok (advance_eq_ok hr hk)]
  rw [hc] at hp ⊢
  exact hf _ (hp.reaches ha)

theorem expect_bind (fits : Nat → Prop) {k : Kind} {expectation : String} {f : Token → Read β} (hr : r.cursor.Closed)
    (ha : r.cursor.ahead = t :: us) (hk : t.kind = k)
    (hf : ∀ s, Reaches fits r s us → (f t s).Meets good bad short) :
    ((expect k expectation >>= f) r).Meets good bad short := by
  have he : expect k expectation r = advance r := by
    rw [expect_eq, if_pos ((kind_eq_of_ahead ha).trans hk)]
  have hb := advance_bind fits hr ha hf
  rw [Action.meets_bind] at hb ⊢
  rwa [he]

/-- The part is there: the next token is `k`. -/
theorem behind?_bind (fits : Nat → Prop) {α : Type} {k : Kind} {x : Read α} {f : Option α → Read β}
    (hr : r.cursor.Closed) (ha : r.cursor.ahead = t :: us) (hk : t.kind = k)
    (hx : ∀ s, Reaches fits r s us →
      (x s).Meets (fun a u => (f (some a) u).Meets good bad short) bad short) :
    ((behind? k x >>= f) r).Meets good bad short := by
  have hcheck : decide (r.cursor.kind = k) = true :=
    decide_eq_true ((kind_eq_of_ahead ha).trans hk)
  rw [Action.meets_bind, behind?, Action.bind_ok (rfl : check k r = _), if_pos hcheck]
  exact advance_bind fits hr ha fun s hs => Action.meets_bind.2 (hx s hs)

theorem behind?_none {α : Type} {k : Kind} {x : Read α} (hk : r.cursor.kind ≠ k) :
    behind? k x r = .ok none r := by
  rw [behind?, Action.bind_ok (rfl : check k r = _), if_neg (by simpa using hk)]
  rfl

theorem before?_some {α : Type} {k : Kind} {x : Read α} (hk : r.cursor.kind ≠ k) :
    before? k x r = (x >>= fun a => pure (some a)) r := by
  rw [before?, Action.bind_ok (rfl : check k r = _), if_neg (by simpa using hk)]

theorem before?_none {α : Type} {k : Kind} {x : Read α} (hk : r.cursor.kind = k) :
    before? k x r = .ok none r := by
  rw [before?, Action.bind_ok (rfl : check k r = _), if_pos (decide_eq_true hk)]
  rfl

end Read

end LoxLang
