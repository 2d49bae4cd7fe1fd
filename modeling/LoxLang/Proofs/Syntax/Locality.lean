import LoxLang.Proofs.Syntax.Ahead
import LoxLang.Proofs.Syntax.Composition

/-!
Reading looks at nothing behind the current token.

No step goes back, and none passes a closing token (`Cursor.Onward`).  Take two lists of tokens that
are the same up to a token `last` and go on as they like behind it (`Parting`), and two readings at the
same place in them (`Reading.Alike`).  As long as `last` is not passed, both readings do the same:
they give the same, record the same faults, and are at the same place again (`Composed.same`).  The one
look beyond the current token is at a `fun`, so `last` must not be one.
-/

namespace LoxLang

theorem beforeEof_append {ts : List Token} (h : ∀ t ∈ ts, t.kind ≠ .eof) (us : List Token) :
    beforeEof (ts ++ us) = ts ++ beforeEof us :=
  List.takeWhile_append_of_pos fun t ht => decide_eq_true (h t ht)

/-! ## Going on -/

namespace Cursor

variable {c d e : Cursor}

/-- The current token and all behind it. -/
def remaining (c : Cursor) : List Token := c.current :: c.upcoming

/-- From `c` to `d` some tokens are passed, none of them a closing one. -/
def Onward (c d : Cursor) : Prop :=
  ∃ passed, c.remaining = passed ++ d.remaining ∧ ∀ t ∈ passed, t.kind ≠ .eof

theorem Onward.refl (c : Cursor) : c.Onward c :=
  ⟨[], rfl, fun _ h => (List.not_mem_nil h).elim⟩

theorem Onward.trans (h : c.Onward d) (h' : d.Onward e) : c.Onward e := by
  obtain ⟨passed, hc, hp⟩ := h
  obtain ⟨passed', hd, hp'⟩ := h'
  refine ⟨passed ++ passed', by rw [hc, hd, List.append_assoc], ?_⟩
  exact List.forall_mem_append.2 ⟨hp, hp'⟩

theorem Onward.length_le (h : c.Onward d) : d.remaining.length ≤ c.remaining.length := by
  obtain ⟨passed, hc, -⟩ := h
  rw [hc, List.length_append]
  exact Nat.le_add_left _ _

theorem Onward.closed (h : c.Onward d) (hc : c.Closed) : d.Closed := by
  obtain ⟨passed, hpassed, hp⟩ := h
  obtain ⟨t, ht, hk⟩ := hc
  have hmem : t ∈ passed ++ d.remaining := hpassed ▸ ht
  rcases List.mem_append.1 hmem with hmem | hmem
  · exact absurd hk (hp t hmem)
  · exact ⟨t, hmem, hk⟩

theorem Onward.ahead (h : c.Onward d) : ∃ passed, c.remaining = passed ++ d.remaining ∧
    c.ahead = passed ++ d.ahead := by
  obtain ⟨passed, hc, hp⟩ := h
  refine ⟨passed, hc, ?_⟩
  show beforeEof c.remaining = _
  rw [hc, beforeEof_append hp]
  rfl

/-- The first closing token is not passed. -/
theorem Onward.length_lt (h : c.Onward d) {w rest : List Token} {last : Token}
    (hc : c.remaining = w ++ last :: rest) (hlast : last.kind = .eof) :
    rest.length < d.remaining.length := by
  obtain ⟨passed, hpassed, hp⟩ := h
  refine Nat.lt_of_not_le fun hle => ?_
  have hlen := congrArg List.length hpassed
  rw [hc, List.length_append, List.length_append, List.length_cons] at hlen
  have hlast' : w ++ [last] <+: c.remaining := ⟨rest, by rw [hc, List.append_assoc]; rfl⟩
  have hpassed' : passed <+: c.remaining := ⟨d.remaining, hpassed.symm⟩
  have hwithin : w ++ [last] <+: passed := by
    refine List.prefix_of_prefix_length_le hlast' hpassed' ?_
    rw [List.length_append, List.length_singleton]
    omega
  exact hp last (hwithin.subset (List.mem_append_right w (List.mem_singleton.2 rfl))) hlast

theorem remaining_advance (hc : c.Closed) (hk : c.kind ≠ .eof) :
    c.remaining = c.current :: c.advance.remaining := by
  obtain ⟨t, ts, hu⟩ := List.exists_cons_of_ne_nil (hc.upcoming_ne_nil hk)
  rw [advance_eq hk hu, remaining, hu]
  rfl

theorem onward_advance (c : Cursor) : c.Onward c.advance := by
  by_cases hk : c.kind = .eof
  · rw [advance_of_atEnd hk]
    exact .refl c
  · cases hu : c.upcoming with
    | nil =>
      have hsame : c.advance = c := by
        rw [advance, hu]
        split <;> rfl
      rw [hsame]
      exact .refl c
    | cons t ts =>
      rw [advance_eq hk hu]
      refine ⟨[c.current], by rw [remaining, hu]; rfl, ?_⟩
      exact List.forall_mem_singleton.2 hk

theorem onward_skip (previous current : Token) (upcoming : List Token) :
    Onward ⟨previous, current, upcoming⟩ (skip previous current upcoming) := by
  induction upcoming generalizing previous current with
  | nil =>
    unfold skip
    split <;> exact .refl _
  | cons t ts ih =>
    unfold skip
    split
    · exact .refl _
    · rename_i hgo
      obtain ⟨passed, hpassed, hp⟩ := ih current t
      refine ⟨current :: passed, congrArg (current :: ·) hpassed, List.forall_mem_cons.2 ⟨?_, hp⟩⟩
      intro hk
      simp [hk] at hgo

theorem onward_synchronize (c : Cursor) : c.Onward c.synchronize :=
  c.onward_advance.trans (onward_skip _ _ _)

/-! ## Tokens that part behind a token -/

/-- Behind `last` there is `rest` or `rest'`; either has an end. -/
structure Parting (last : Token) (rest rest' : List Token) : Prop where
  closed : ∃ t ∈ last :: rest, t.kind = .eof
  closed' : ∃ t ∈ last :: rest', t.kind = .eof
  kind_ne : last.kind ≠ .funKw

/-- At the same place, not behind `last`.  What has been passed just before is asked for at the end
only, where a move gives it once more. -/
structure Alike (last : Token) (rest rest' : List Token) (c d : Cursor) : Prop where
  window : ∃ w, c.remaining = w ++ last :: rest ∧ d.remaining = w ++ last :: rest'
  previous : c.kind = .eof → c.previous = d.previous

variable {last : Token} {rest rest' : List Token}

theorem Alike.current (h : Alike last rest rest' c d) : c.current = d.current := by
  obtain ⟨w, hc, hd⟩ := h.window
  cases w with
  | nil => exact (List.cons.inj hc).1.trans (List.cons.inj hd).1.symm
  | cons t w => exact (List.cons.inj hc).1.trans (List.cons.inj hd).1.symm

theorem Alike.kind (h : Alike last rest rest' c d) : c.kind = d.kind :=
  congrArg Token.kind h.current

theorem Alike.closed (h : Alike last rest rest' c d) (hp : Parting last rest rest') :
    c.Closed ∧ d.Closed := by
  obtain ⟨w, hc, hd⟩ := h.window
  obtain ⟨t, ht, hk⟩ := hp.closed
  obtain ⟨t', ht', hk'⟩ := hp.closed'
  refine ⟨⟨t, ?_, hk⟩, ⟨t', ?_, hk'⟩⟩
  · show t ∈ c.remaining
    exact hc ▸ List.mem_append_right w ht
  · show t' ∈ d.remaining
    exact hd ▸ List.mem_append_right w ht'

/-- At a `fun` the next token is the same too, since `last` is none. -/
theorem Alike.nextKind (h : Alike last rest rest' c d) (hp : Parting last rest rest')
    (hk : c.kind = .funKw) : c.nextKind = d.nextKind := by
  obtain ⟨w, hc, hd⟩ := h.window
  cases w with
  | nil =>
    have hlast : c.current = last := (List.cons.inj hc).1
    exact absurd (hlast ▸ hk) hp.kind_ne
  | cons t w =>
    rw [Cursor.nextKind, Cursor.nextKind, (List.cons.inj hc).2, (List.cons.inj hd).2]
    cases w <;> rfl

/-- A move leads to the same place, and passes the same token, unless `last` is passed. -/
theorem Alike.advance (h : Alike last rest rest' c d) (hp : Parting last rest rest')
    (hin : rest.length < c.advance.remaining.length) :
    Alike last rest rest' c.advance d.advance ∧ c.advance.previous = d.advance.previous := by
  obtain ⟨hclosed, hclosed'⟩ := h.closed hp
  by_cases hk : c.kind = .eof
  · rw [advance_of_atEnd hk, advance_of_atEnd (h.kind ▸ hk)]
    exact ⟨h, h.previous hk⟩
  · have hk' : d.kind ≠ .eof := h.kind ▸ hk
    have hprevious : c.advance.previous = d.advance.previous := by
      rw [hclosed.previous_advance hk, hclosed'.previous_advance hk', h.current]
    refine ⟨⟨?_, fun _ => hprevious⟩, hprevious⟩
    have hc' := remaining_advance hclosed hk
    have hd' := remaining_advance hclosed' hk'
    obtain ⟨w, hc, hd⟩ := h.window
    rw [hc] at hc'
    rw [hd] at hd'
    cases w with
    | nil =>
      rw [← (List.cons.inj hc').2] at hin
      exact absurd hin (Nat.lt_irrefl _)
    | cons t w => exact ⟨w, (List.cons.inj hc').2.symm, (List.cons.inj hd').2.symm⟩

theorem skip_cons {previous current t : Token} {ts : List Token}
    (h : ¬(current.kind = .eof || previous.kind = .semicolon || current.kind.isBoundary) = true) :
    skip previous current (t :: ts) = skip current t ts := by
  rw [skip, if_neg h]

theorem skip_of_stop {previous current : Token} {upcoming : List Token}
    (h : (current.kind = .eof || previous.kind = .semicolon || current.kind.isBoundary) = true) :
    skip previous current upcoming = ⟨previous, current, upcoming⟩ := by
  unfold skip
  exact if_pos h

/-- Skipping leads to the same place, unless it passes `last`. -/
theorem alike_skip (hp : Parting last rest rest') {w : List Token} {previous current : Token}
    {upcoming upcoming' : List Token} (hc : current :: upcoming = w ++ last :: rest)
    (hd : current :: upcoming' = w ++ last :: rest')
    (hin : rest.length < (skip previous current upcoming).remaining.length) :
    Alike last rest rest' (skip previous current upcoming) (skip previous current upcoming') := by
  induction w generalizing previous current upcoming upcoming' with
  | nil =>
    obtain ⟨rfl, rfl⟩ := List.cons.inj hc
    obtain ⟨-, rfl⟩ := List.cons.inj hd
    by_cases hstop : (current.kind = .eof || previous.kind = .semicolon ||
        current.kind.isBoundary) = true
    · rw [skip_of_stop hstop, skip_of_stop hstop]
      exact ⟨⟨[], rfl, rfl⟩, fun _ => rfl⟩
    · obtain ⟨t, ht, hk⟩ := hp.closed
      have hne : upcoming ≠ [] := by
        rintro rfl
        obtain rfl := List.mem_singleton.1 ht
        simp [hk] at hstop
      obtain ⟨t, ts, rfl⟩ := List.exists_cons_of_ne_nil hne
      rw [skip_cons hstop] at hin
      exact absurd hin (Nat.not_lt.2 (onward_skip current t ts).length_le)
  | cons a w ih =>
    rw [List.cons_append, List.cons.injEq] at hc hd
    obtain ⟨rfl, rfl⟩ := hc
    obtain ⟨-, rfl⟩ := hd
    by_cases hstop : (current.kind = .eof || previous.kind = .semicolon ||
        current.kind.isBoundary) = true
    · rw [skip_of_stop hstop, skip_of_stop hstop]
      exact ⟨⟨current :: w, rfl, rfl⟩, fun _ => rfl⟩
    · obtain ⟨t, ts, ht⟩ : ∃ t ts, w ++ last :: rest = t :: ts :=
        List.exists_cons_of_ne_nil (List.append_ne_nil_of_right_ne_nil w (List.cons_ne_nil _ _))
      obtain ⟨t', ts', ht'⟩ : ∃ t ts, w ++ last :: rest' = t :: ts :=
        List.exists_cons_of_ne_nil (List.append_ne_nil_of_right_ne_nil w (List.cons_ne_nil _ _))
      have hsame : t' = t := by
        cases w with
        | nil => exact (List.cons.inj ht').1.symm.trans (List.cons.inj ht).1
        | cons b w => exact (List.cons.inj ht').1.symm.trans (List.cons.inj ht).1
      subst hsame
      rw [ht, skip_cons hstop] at hin
      rw [ht, ht', skip_cons hstop, skip_cons hstop]
      exact ih ht.symm ht'.symm hin

theorem Alike.synchronize (h : Alike last rest rest' c d) (hp : Parting last rest rest')
    (hin : rest.length < c.synchronize.remaining.length) :
    Alike last rest rest' c.synchronize d.synchronize := by
  have hadvance : rest.length < c.advance.remaining.length :=
    Nat.lt_of_lt_of_le hin (onward_skip _ _ _).length_le
  obtain ⟨hnext, hprevious⟩ := h.advance hp hadvance
  obtain ⟨w, hc, hd⟩ := hnext.window
  rw [Cursor.remaining, ← hnext.current] at hd
  rw [Cursor.synchronize, Cursor.synchronize, ← hprevious, ← hnext.current]
  exact alike_skip hp hc hd hin

end Cursor

/-- Readings that are at the same place, with the same faults and the same next number. -/
structure Reading.Alike (last : Token) (rest rest' : List Token) (r s : Reading) : Prop where
  cursor : r.cursor.Alike last rest rest' s.cursor
  faults : r.faults = s.faults
  nextId : r.nextId = s.nextId

namespace Read

open Cursor Outcome

/-- Whatever a composition leads to lies onward. -/
theorem Composed.onward {α : Type} {x y : Read α} (h : Composed x y) (r : Reading) :
    (x r).Meets (fun _ s => r.cursor.Onward s.cursor) (fun _ s => r.cursor.Onward s.cursor) True := by
  induction h generalizing r with
  | short => exact trivial
  | pure | fail | look | startsNamed | report | freshId => exact .refl _
  | advance => exact r.cursor.onward_advance
  | synchronize => exact r.cursor.onward_synchronize
  | bind _ _ ih ihk =>
    refine Action.meets_bind.2 ((ih r).mono (fun a s hs => ?_) (fun _ _ => id) id)
    exact (ihk a s).mono (fun _ _ ht => hs.trans ht) (fun _ _ ht => hs.trans ht) id
  | attempt _ ih => exact Action.meets_attempt.2 (ih r)

section

variable (last : Token) (rest rest' : List Token)

/-- `last` is not passed. -/
def Within {α : Type} (o : Outcome TokenError Reading α) : Prop :=
  o.Meets (fun _ s => rest.length < s.cursor.remaining.length)
    (fun _ s => rest.length < s.cursor.remaining.length) True

/-- The first runs out of steps, or both give the same, at the same place. -/
def Same {α : Type} (o p : Outcome TokenError Reading α) : Prop :=
  o = .exhausted ∨
    o.Agrees p (fun a r b s => a = b ∧ r.Alike last rest rest' s) (·.Alike last rest rest' ·)

end

variable {last : Token} {rest rest' : List Token}

/-- What comes first stays within when it all does. -/
theorem Composed.within_bind {α β : Type} {x : Read α} {F G : α → Read β}
    (hk : ∀ a, Composed (F a) (G a)) {r : Reading} (h : Within rest ((x >>= F) r)) :
    (x >>= F) r = .exhausted ∨ Within rest (x r) := by
  rw [Action.bind_apply] at h ⊢
  cases hx : x r with
  | ok a s =>
    rw [hx] at h
    have honward := (hk a).onward s
    dsimp only at h ⊢
    cases hF : F a s with
    | ok b t =>
      rw [hF] at h honward
      exact .inr (Nat.lt_of_lt_of_le h honward.length_le)
    | error e t =>
      rw [hF] at h honward
      exact .inr (Nat.lt_of_lt_of_le h honward.length_le)
    | exhausted => exact .inl rfl
  | error e s =>
    rw [hx] at h
    exact .inr h
  | exhausted => exact .inl rfl

/-- Two readings at the same place go the same way, as long as `last` is not passed. -/
theorem Composed.same (hp : Parting last rest rest') {α : Type} {x y : Read α} (h : Composed x y)
    {r s : Reading} (hrs : r.Alike last rest rest' s) (hin : Within rest (x r)) :
    Same last rest rest' (x r) (y s) := by
  induction h generalizing r s with
  | short => exact .inl rfl
  | pure => exact .inr ⟨rfl, hrs⟩
  | fail => exact .inr ⟨rfl, hrs⟩
  | look f => exact .inr ⟨congrArg f hrs.cursor.current, hrs⟩
  | startsNamed =>
    refine .inr ⟨?_, hrs⟩
    rw [← hrs.cursor.kind]
    by_cases hk : r.cursor.kind = .funKw
    · rw [hrs.cursor.nextKind hp hk]
    · rw [decide_eq_false hk, Bool.false_and, Bool.false_and]
  | advance =>
    obtain ⟨hnext, hprevious⟩ := hrs.cursor.advance hp hin
    exact .inr ⟨hprevious, hnext, hrs.faults, hrs.nextId⟩
  | report e => exact .inr ⟨rfl, hrs.cursor, congrArg (e :: ·) hrs.faults, hrs.nextId⟩
  | freshId => exact .inr ⟨hrs.nextId, hrs.cursor, hrs.faults, congrArg (· + 1) hrs.nextId⟩
  | synchronize =>
    exact .inr ⟨rfl, hrs.cursor.synchronize hp hin, hrs.faults, hrs.nextId⟩
  | bind hx hk ih ihk =>
    rcases within_bind hk hin with hshort | hfirst
    · exact .inl hshort
    rw [Action.bind_apply] at hin ⊢
    rw [Action.bind_apply]
    rcases ih hrs hfirst with hshort | hsame
    · rw [hshort]
      exact .inl rfl
    rcases hsame.alike with ⟨a, r', _, s', hr, hs, rfl, hnext⟩ | ⟨e, r', s', hr, hs, hnext⟩ |
      ⟨hr, -⟩
    · rw [hr] at hin ⊢
      rw [hs]
      exact ihk a hnext hin
    · rw [hr, hs]
      exact .inr ⟨rfl, hnext⟩
    · rw [hr]
      exact .inl rfl
  | attempt hx ih =>
    rw [Action.attempt, Action.attempt]
    rcases ih hrs (Action.meets_attempt.1 hin) with hshort | hsame
    · rw [hshort]
      exact .inl rfl
    rcases hsame.alike with ⟨a, r', _, s', hr, hs, rfl, hnext⟩ | ⟨e, r', s', hr, hs, hnext⟩ |
      ⟨hr, -⟩
    · rw [hr, hs]
      exact .inr ⟨rfl, hnext⟩
    · rw [hr, hs]
      exact .inr ⟨rfl, hnext⟩
    · rw [hr]
      exact .inl rfl

end Read

end LoxLang
