import LoxLang.Proofs.Syntax.Passage

/-!
What has been read between two readings, and what is derived from it.

`Builds` says that the tokens passed, less those that recovery has dropped, are derived in some way,
and that the node numbers of the tree are new and distinct.  It is put together as a derivation is:
one part behind the other, with single tokens between them.

The lengths of lists are right where no fault is recorded, so a derivation is promised of readings
that are `Accepted` only: without fault, or when every length fits.
-/

namespace LoxLang

open Reading Outcome

variable {fits : Nat → Prop}

namespace Reading

/-- No fault between two readings, or no length to complain of. -/
def Accepted (fits : Nat → Prop) (r s : Reading) : Prop := s.faults = r.faults ∨ ∀ k, fits k

/-- Something with the node numbers `ids` has been read, with `derived` of the tokens kept. -/
def Builds (fits : Nat → Prop) (r s : Reading) (ids : List NodeId) (derived : List Token → Prop) :
    Prop :=
  ∃ used kept, Reads r s used kept ids ∧ (Accepted fits r s → derived kept)

variable {r s t : Reading} {used used' : List Token}

theorem Accepted.split (h : Moves r s used) (h' : Moves s t used') (ha : Accepted fits r t) :
    Accepted fits r s ∧ Accepted fits s t := by
  rcases ha with he | hf
  · exact ⟨.inl (h.quiet h' he).1, .inl (h.quiet h' he).2⟩
  · exact ⟨.inr hf, .inr hf⟩

theorem Builds.mono {ids : List NodeId} {derived derived' : List Token → Prop}
    (h : Builds fits r s ids derived) (hd : ∀ ts, derived ts → derived' ts) :
    Builds fits r s ids derived' := by
  obtain ⟨used, kept, hr, hk⟩ := h
  exact ⟨used, kept, hr, fun ha => hd kept (hk ha)⟩

theorem Builds.moves {ids : List NodeId} {derived : List Token → Prop}
    (h : Builds fits r s ids derived) : ∃ used, Moves r s used := by
  obtain ⟨used, kept, hr, -⟩ := h
  exact ⟨used, hr.toMoves⟩

theorem Builds.closed {ids : List NodeId} {derived : List Token → Prop}
    (h : Builds fits r s ids derived) : s.cursor.Closed := by
  obtain ⟨used, hm⟩ := h.moves
  exact hm.closed

theorem Builds.length_le {ids : List NodeId} {derived : List Token → Prop}
    (h : Builds fits r s ids derived) : s.cursor.ahead.length ≤ r.cursor.ahead.length := by
  obtain ⟨used, hm⟩ := h.moves
  have := hm.length_le
  omega

theorem Builds.refl (h : r.cursor.Closed) : Builds fits r r [] fun ts => ts = [] :=
  ⟨[], [], Reads.refl h, fun _ => rfl⟩

theorem Builds.append {ids ids' : List NodeId} {derived derived' : List Token → Prop}
    (h : Builds fits r s ids derived) (h' : Builds fits s t ids' derived') :
    Builds fits r t (ids ++ ids') fun ts =>
      ∃ as bs, ts = as ++ bs ∧ derived as ∧ derived' bs := by
  obtain ⟨used, kept, hr, hk⟩ := h
  obtain ⟨used', kept', hr', hk'⟩ := h'
  refine ⟨used ++ used', kept ++ kept', hr.trans hr', ?_⟩
  intro ha
  obtain ⟨h1, h2⟩ := ha.split hr.toMoves hr'.toMoves
  exact ⟨kept, kept', rfl, hk h1, hk' h2⟩

theorem builds_of_passes (fits : Nat → Prop) {x : Token} (h : Read.Passes r s x) :
    Builds fits r s [] fun ts => ts = [x] :=
  ⟨[x], [x], h.reads, fun _ => rfl⟩

/-- What has been read before without being kept. -/
theorem Builds.after {ids : List NodeId} {derived : List Token → Prop}
    (h : Builds fits s t ids derived) (hs : Reads r s [] [] []) : Builds fits r t ids derived := by
  obtain ⟨used, kept, hr, hk⟩ := h
  exact ⟨_, _, hs.trans hr, fun ha => hk (ha.split hs.toMoves hr.toMoves).2⟩

theorem Builds.and {ids : List NodeId} {derived : List Token → Prop} {q : Prop}
    (h : Builds fits r s ids derived) (hq : Accepted fits r s → q) :
    Builds fits r s ids fun ts => derived ts ∧ q := by
  obtain ⟨used, kept, hr, hk⟩ := h
  exact ⟨used, kept, hr, fun ha => ⟨hk ha, hq ha⟩⟩

theorem Builds.sublist {ids ids' : List NodeId} {derived : List Token → Prop}
    (h : Builds fits r s ids derived) (hs : ids'.Sublist ids) : Builds fits r s ids' derived := by
  obtain ⟨used, kept, hr, hk⟩ := h
  exact ⟨used, kept, hr.withIds (hr.toNumbers.sublist hs), hk⟩

theorem Builds.perm {ids ids' : List NodeId} {derived : List Token → Prop}
    (h : Builds fits r s ids derived) (hp : ids.Perm ids') : Builds fits r s ids' derived := by
  obtain ⟨used, kept, hr, hk⟩ := h
  exact ⟨used, kept, hr.withIds (hr.toNumbers.perm hp), hk⟩

/-- On the way to a fault, what has been read may be dropped. -/
theorem Builds.drop {ids : List NodeId} {derived : List Token → Prop}
    (h : Builds fits r s ids derived) (h' : Moves s t used') (he : t.faults ≠ r.faults) :
    Builds fits r t ids derived := by
  obtain ⟨used, kept, hr, hk⟩ := h
  refine ⟨_, kept, hr.drop h' he, ?_⟩
  rintro (ha | ha)
  · exact absurd ha he
  · exact hk (.inr ha)

/-- The next token ends what has been read so far. -/
theorem Builds.snoc {ids : List NodeId} {derived : List Token → Prop} {x : Token}
    (h : Builds fits r s ids derived) (hx : Read.Passes s t x) :
    Builds fits r t ids fun ts => ∃ as, ts = as ++ [x] ∧ derived as := by
  have hb := h.append (builds_of_passes fits hx)
  rw [List.append_nil] at hb
  refine hb.mono ?_
  rintro ts ⟨as, bs, rfl, ha, rfl⟩
  exact ⟨as, rfl, ha⟩

/-- A token stands before what is read. -/
theorem Builds.cons {ids : List NodeId} {derived : List Token → Prop} {x : Token}
    (hx : Read.Passes r s x) (h : Builds fits s t ids derived) :
    Builds fits r t ids fun ts => ∃ bs, ts = x :: bs ∧ derived bs := by
  refine ((builds_of_passes fits hx).append h).mono ?_
  rintro ts ⟨as, bs, rfl, rfl, hb⟩
  exact ⟨bs, rfl, hb⟩

end Reading

namespace Read

variable {r : Reading} {α : Type}

/-! ## Parts that may be missing -/

theorem before?_meets {k : Kind} {x : Read α} {good : α → Reading → Prop} {short : Prop}
    (hx : r.cursor.kind ≠ k → (x r).Meets good (Fails r) short) :
    (before? k x r).Meets
      (fun o s => (o = none ∧ s = r ∧ r.cursor.kind = k) ∨ ∃ a, o = some a ∧ good a s)
      (Fails r) short := by
  rw [before?, Action.bind_ok (rfl : check k r = _)]
  by_cases h : r.cursor.kind = k
  · rw [if_pos (decide_eq_true h)]
    exact .inl ⟨rfl, rfl, h⟩
  · rw [if_neg (by simpa using h)]
    exact Action.meets_bind.2 ((hx h).mono (fun a s ha => .inr ⟨a, rfl, ha⟩) (fun _ _ h => h) id)

theorem behind?_meets {k : Kind} {x : Read α} {good : α → Reading → Prop} {short : Prop}
    (hr : r.cursor.Closed) (hk : k ≠ .eof)
    (hx : ∀ t, t.kind = k → Passes r (behindCurrent r) t →
      (x (behindCurrent r)).Meets good (Fails (behindCurrent r)) short) :
    (behind? k x r).Meets
      (fun o s => (o = none ∧ s = r ∧ r.cursor.kind ≠ k) ∨
        ∃ a t, o = some a ∧ t.kind = k ∧ Passes r (behindCurrent r) t ∧ good a s)
      (Fails r) short := by
  rw [behind?, Action.bind_ok (rfl : check k r = _)]
  by_cases h : r.cursor.kind = k
  · have hp := passes_behindCurrent hr (h ▸ hk)
    rw [if_pos (decide_eq_true h), Action.bind_ok (advance_eq_ok hr (h ▸ hk))]
    refine hp.reads.toMoves.bind (hx _ h hp) id ?_
    intro a s ha
    exact .inr ⟨a, _, rfl, h, hp, ha⟩
  · rw [if_neg (by simpa using h)]
    exact .inl ⟨rfl, rfl, h⟩

/-- A fault recorded in passing changes nothing else; there is none while the list is not full. -/
theorem reportExcess_meets (count : Nat) (cause : Cause) (hr : r.cursor.Closed) :
    (reportExcess count cause r).Meets
      (fun _ s => s.cursor = r.cursor ∧ Reads r s [] [] [] ∧
        (s.faults = r.faults → count < maxArity))
      (Fails r) False := by
  rw [reportExcess_eq]
  split
  · refine ⟨rfl, ⟨⟨hr, rfl, List.suffix_cons _ _, Nat.le_refl _⟩, Numbers.nil _ _,
      List.Sublist.refl _, fun _ => rfl⟩, fun h => ?_⟩
    exact absurd h (List.cons_ne_self _ _)
  · rename_i h
    exact ⟨rfl, Reads.refl hr, fun _ => Nat.lt_of_not_le h⟩

theorem moves_freshId (hr : r.cursor.Closed) : Moves r { r with nextId := r.nextId + 1 } [] :=
  ⟨hr, rfl, List.suffix_refl _, Nat.le_succ _⟩

theorem builds_freshId (hr : r.cursor.Closed) :
    Builds fits r { r with nextId := r.nextId + 1 } [r.nextId] fun ts => ts = [] := by
  refine ⟨[], [], ⟨moves_freshId hr, ⟨by simp, ?_, ?_⟩, List.Sublist.refl _, fun _ => rfl⟩,
    fun _ => rfl⟩
  · intro i hi
    exact Nat.le_of_eq (List.mem_singleton.1 hi).symm
  · intro i hi
    exact List.mem_singleton.1 hi ▸ Nat.lt_succ_self _

theorem advance_bind_meets {β : Type} {f : Token → Read β} {good : β → Reading → Prop}
    {short : Prop} (hr : r.cursor.Closed) (hk : r.cursor.kind ≠ .eof)
    (hf : ∀ t s, t.kind = r.cursor.kind → Passes r s t → (f t s).Meets good (Fails r) short) :
    ((advance >>= f) r).Meets good (Fails r) short := by
  rw [Action.bind_ok (advance_eq_ok hr hk)]
  exact hf _ _ rfl (passes_behindCurrent hr hk)

/-- After `s`, where `r` has led, a token of kind `k` is expected. -/
theorem expect_bind_meets {β : Type} {k : Kind} {expectation : String} {f : Token → Read β}
    {good : β → Reading → Prop} {short : Prop} {s : Reading} {used : List Token}
    (h : Moves r s used) (hk : k ≠ .eof)
    (hf : ∀ t u, t.kind = k → Passes s u t → (f t u).Meets good (Fails r) short) :
    ((expect k expectation >>= f) s).Meets good (Fails r) short :=
  h.bind (expect_meets expectation h.closed hk) False.elim fun t u ht => hf t u ht.1 ht.2

end Read

end LoxLang
