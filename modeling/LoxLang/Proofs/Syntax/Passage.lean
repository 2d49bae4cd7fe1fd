import LoxLang.Proofs.Outcome
import LoxLang.Proofs.Syntax.Ahead
import LoxLang.Proofs.Syntax.Relabel
import LoxLang.Syntax.Reading

/-!
How far a reading gets, and with what.

`Moves r s used` says that the reading `s` is the reading `r` with the tokens `used` behind it:
nothing is read twice, no fault is forgotten and no node number is given out again.  `Reads` adds
the tokens that are left of `used` when those are taken away that recovery has dropped (`kept`) and
the node numbers of the tree that was built (`ids`).  As long as no fault is recorded, nothing is
dropped.

Every step of reading meets `Moves` on all its ways out, the failing ones included, which is what
`Moves.bind` puts together.
-/

namespace LoxLang

namespace Reading

structure Moves (r s : Reading) (used : List Token) : Prop where
  closed : s.cursor.Closed
  ahead : r.cursor.ahead = used ++ s.cursor.ahead
  faults : r.faults <:+ s.faults
  nextId : r.nextId ≤ s.nextId

/-- The node numbers are distinct and have been given out between two readings. -/
structure Numbers (r s : Reading) (ids : List NodeId) : Prop where
  nodup : ids.Nodup
  lower : ∀ i ∈ ids, r.nextId ≤ i
  upper : ∀ i ∈ ids, i < s.nextId

structure Reads (r s : Reading) (used kept : List Token) (ids : List NodeId) : Prop
    extends Moves r s used, Numbers r s ids where
  sublist : kept.Sublist used
  clean : s.faults = r.faults → kept = used

/-- A reading that has failed is still a reading on. -/
def Fails (r : Reading) (_ : TokenError) (s : Reading) : Prop := ∃ used, Moves r s used

variable {r s t : Reading} {used used' kept kept' : List Token} {ids ids' : List NodeId}

theorem Moves.refl (h : r.cursor.Closed) : Moves r r [] :=
  ⟨h, rfl, List.suffix_refl _, Nat.le_refl _⟩

theorem Moves.trans (h : Moves r s used) (h' : Moves s t used') : Moves r t (used ++ used') where
  closed := h'.closed
  ahead := by rw [h.ahead, h'.ahead, List.append_assoc]
  faults := h.faults.trans h'.faults
  nextId := Nat.le_trans h.nextId h'.nextId

theorem Moves.length_le (h : Moves r s used) :
    s.cursor.ahead.length + used.length = r.cursor.ahead.length := by
  rw [h.ahead, List.length_append]
  omega

/-- No fault between `r` and `t` means none before and none behind a reading on the way. -/
theorem Moves.quiet (h : Moves r s used) (h' : Moves s t used') (he : t.faults = r.faults) :
    s.faults = r.faults ∧ t.faults = s.faults := by
  have h1 := h.faults
  have h2 := h'.faults
  rw [he] at h2
  have hs : s.faults = r.faults := h2.eq_of_length_le h1.length_le
  exact ⟨hs, he.trans hs.symm⟩

theorem Numbers.nil (r s : Reading) : Numbers r s [] :=
  ⟨List.nodup_nil, fun _ h => (List.not_mem_nil h).elim, fun _ h => (List.not_mem_nil h).elim⟩

theorem Numbers.append (hr : r.nextId ≤ s.nextId) (ht : s.nextId ≤ t.nextId)
    (h : Numbers r s ids) (h' : Numbers s t ids') : Numbers r t (ids ++ ids') where
  nodup := by
    refine List.nodup_append.2 ⟨h.nodup, h'.nodup, ?_⟩
    intro i hi j hj he
    subst he
    exact Nat.not_lt.2 (h'.lower i hj) (h.upper i hi)
  lower := by
    intro i hi
    rcases List.mem_append.1 hi with hi | hi
    · exact h.lower i hi
    · exact Nat.le_trans hr (h'.lower i hi)
  upper := by
    intro i hi
    rcases List.mem_append.1 hi with hi | hi
    · exact Nat.lt_of_lt_of_le (h.upper i hi) ht
    · exact h'.upper i hi

theorem Numbers.perm (h : Numbers r s ids) (hp : ids.Perm ids') : Numbers r s ids' where
  nodup := hp.nodup h.nodup
  lower i hi := h.lower i (hp.mem_iff.2 hi)
  upper i hi := h.upper i (hp.mem_iff.2 hi)

theorem Numbers.sublist (h : Numbers r s ids) (hs : ids'.Sublist ids) : Numbers r s ids' where
  nodup := h.nodup.sublist hs
  lower i hi := h.lower i (hs.subset hi)
  upper i hi := h.upper i (hs.subset hi)

theorem Reads.trans (h : Reads r s used kept ids) (h' : Reads s t used' kept' ids') :
    Reads r t (used ++ used') (kept ++ kept') (ids ++ ids') where
  toMoves := h.toMoves.trans h'.toMoves
  toNumbers := h.toNumbers.append h.nextId h'.nextId h'.toNumbers
  sublist := h.sublist.append h'.sublist
  clean he := by
    obtain ⟨h1, h2⟩ := h.toMoves.quiet h'.toMoves he
    rw [h.clean h1, h'.clean h2]

theorem Reads.refl (h : r.cursor.Closed) : Reads r r [] [] [] :=
  { Moves.refl h, Numbers.nil r r with
    sublist := List.Sublist.refl _
    clean := fun _ => rfl }

/-- The same reading, with less of the tree. -/
theorem Reads.withIds (h : Reads r s used kept ids) (hn : Numbers r s ids') :
    Reads r s used kept ids' :=
  { h.toMoves, hn with
    sublist := h.sublist
    clean := h.clean }

/-- What has been read on the way to a fault may be dropped. -/
theorem Reads.drop (h : Reads r s used kept ids) (h' : Moves s t used')
    (he : t.faults ≠ r.faults) : Reads r t (used ++ used') kept ids :=
  { h.toMoves.trans h' with
    nodup := h.nodup
    lower := h.lower
    upper := fun i hi => Nat.lt_of_lt_of_le (h.upper i hi) h'.nextId
    sublist := h.sublist.trans (List.sublist_append_left _ _)
    clean := fun hq => absurd hq he }

/-! ## One step after another -/

theorem Fails.weaken {e : TokenError} (h : Moves r s used) (hf : Fails s e t) : Fails r e t := by
  obtain ⟨used', h'⟩ := hf
  exact ⟨_, h.trans h'⟩

open Outcome in
/-- A step from `s`, where `r` has led, and what follows it. -/
theorem Moves.bind {α β : Type} {x : Read α} {f : α → Read β} {good' : α → Reading → Prop}
    {good : β → Reading → Prop} {short short' : Prop} (h : Moves r s used)
    (hx : (x s).Meets good' (Fails s) short') (hs : short' → short)
    (hf : ∀ a t, good' a t → (f a t).Meets good (Fails r) short) :
    ((x >>= f) s).Meets good (Fails r) short :=
  Action.meets_bind.2 (hx.mono hf (fun _ _ hb => hb.weaken h) hs)

end Reading

namespace Read

open Reading Outcome

variable {r : Reading}

/-- So many steps may run out from `r` on. -/
def TooFew (n : Nat) (r : Reading) (c : Nat) : Prop := n < 16 * r.cursor.ahead.length + c

theorem tooFew_zero {c : Nat} (hc : 0 < c) : TooFew 0 r c := by
  unfold TooFew
  omega

/-- A step on, and more than a token further. -/
theorem TooFew.behind {n c c' : Nat} {s : Reading} {ts us : List Token}
    (ha : r.cursor.ahead = ts) (hs : s.cursor.ahead = us) (hl : us.length < ts.length)
    (hc : c ≤ c' + 15) (h : TooFew n s c) : TooFew (n + 1) r c' := by
  unfold TooFew at *
  rw [ha]
  rw [hs] at h
  omega

/-! ## Single tokens -/

/-- Passing one token records nothing. -/
structure Passes (r s : Reading) (t : Token) : Prop where
  closed : s.cursor.Closed
  ahead : r.cursor.ahead = t :: s.cursor.ahead
  faults : s.faults = r.faults
  nextId : s.nextId = r.nextId

theorem Passes.reads {s : Reading} {t : Token} (h : Passes r s t) : Reads r s [t] [t] [] where
  closed := h.closed
  ahead := h.ahead
  faults := h.faults ▸ List.suffix_refl _
  nextId := Nat.le_of_eq h.nextId.symm
  toNumbers := Numbers.nil r s
  sublist := List.Sublist.refl _
  clean _ := rfl

theorem Passes.length {s : Reading} {t : Token} (h : Passes r s t) :
    r.cursor.ahead.length = s.cursor.ahead.length + 1 := by
  rw [h.ahead, List.length_cons]

/-- The reading behind the current token. -/
def behindCurrent (r : Reading) : Reading := { r with cursor := r.cursor.advance }

theorem passes_behindCurrent (hr : r.cursor.Closed) (hk : r.cursor.kind ≠ .eof) :
    Passes r (behindCurrent r) r.cursor.current where
  closed := hr.advance
  ahead := by
    have h := hr.ahead_advance
    rw [Cursor.ahead_eq_cons hk, List.tail_cons] at h
    rw [Cursor.ahead_eq_cons hk]
    exact congrArg _ h.symm
  faults := rfl
  nextId := rfl

theorem advance_eq_ok (hr : r.cursor.Closed) (hk : r.cursor.kind ≠ .eof) :
    advance r = .ok r.cursor.current (behindCurrent r) := by
  rw [← hr.previous_advance hk]
  rfl

theorem advance_meets (hr : r.cursor.Closed) (hk : r.cursor.kind ≠ .eof) :
    (advance r).Meets (fun t s => t.kind = r.cursor.kind ∧ Passes r s t) (Fails r) False := by
  rw [advance_eq_ok hr hk]
  exact ⟨rfl, passes_behindCurrent hr hk⟩

theorem expect_eq (k : Kind) (expectation : String) (r : Reading) :
    expect k expectation r =
      if r.cursor.kind = k then advance r
      else .error (.expected r.cursor.current expectation) r := by
  rw [expect, Action.bind_ok (rfl : check k r = _)]
  by_cases h : r.cursor.kind = k
  · rw [if_pos (decide_eq_true h), if_pos h]
  · rw [if_neg (by simpa using h), if_neg h]
    rfl

theorem expect_meets {k : Kind} (expectation : String) (hr : r.cursor.Closed) (hk : k ≠ .eof) :
    (expect k expectation r).Meets (fun t s => t.kind = k ∧ Passes r s t) (Fails r) False := by
  rw [expect_eq]
  split
  · rename_i h
    have ha := advance_meets hr (h ▸ hk)
    rwa [h] at ha
  · exact ⟨_, Moves.refl hr⟩

theorem fail_expected_meets {α : Type} {good : α → Reading → Prop} {short : Prop}
    (expectation : String) (hr : r.cursor.Closed) :
    ((expected expectation >>= fun e => (Action.fail e : Read α)) r).Meets good (Fails r) short :=
  ⟨_, Moves.refl hr⟩

theorem reportExcess_eq (count : Nat) (cause : Cause) (r : Reading) :
    reportExcess count cause r =
      .ok () (if maxArity ≤ count then { r with faults := ⟨r.cursor.current, cause⟩ :: r.faults }
        else r) := by
  unfold reportExcess
  split
  · rfl
  · rfl

end Read

end LoxLang
