import LoxLang.Syntax.Cursor

/-!
The tokens ahead of a cursor: those from the current one up to the first closing token.

A cursor is closed when a closing token is still to come.  Every cursor over a list of tokens is,
and moving on keeps it so.  Of a closed cursor, reading sees nothing but the tokens ahead: the kinds
of the current and the next token, and where a move leads, are read off them.
-/

namespace LoxLang

/-- The tokens before the first closing one. -/
def beforeEof (tokens : List Token) : List Token := tokens.takeWhile fun t => t.kind ≠ .eof

theorem beforeEof_cons_eof {t : Token} {ts : List Token} (h : t.kind = .eof) :
    beforeEof (t :: ts) = [] := by
  simp [beforeEof, h]

theorem beforeEof_cons {t : Token} {ts : List Token} (h : t.kind ≠ .eof) :
    beforeEof (t :: ts) = t :: beforeEof ts := by
  simp [beforeEof, h]

theorem kind_ne_eof_of_mem {t : Token} {ts : List Token} (h : t ∈ beforeEof ts) :
    t.kind ≠ .eof := by
  have := List.all_eq_true.1 List.all_takeWhile t h
  simpa using this

/-- The kind of the first token, closing if there is none. -/
def firstKind (tokens : List Token) : Kind := (tokens.head?.map (·.kind)).getD .eof

@[simp] theorem firstKind_nil : firstKind [] = .eof := rfl

@[simp] theorem firstKind_cons (t : Token) (ts : List Token) : firstKind (t :: ts) = t.kind := rfl

theorem firstKind_append {as : List Token} (bs : List Token) (h : as ≠ []) :
    firstKind (as ++ bs) = firstKind as := by
  cases as with
  | nil => exact absurd rfl h
  | cons a as => rfl

namespace Cursor

def ahead (c : Cursor) : List Token := beforeEof (c.current :: c.upcoming)

def Closed (c : Cursor) : Prop := ∃ t ∈ c.current :: c.upcoming, t.kind = .eof

theorem ahead_eq_nil_of_atEnd {c : Cursor} (h : c.kind = .eof) : c.ahead = [] :=
  beforeEof_cons_eof h

theorem ahead_eq_cons {c : Cursor} (h : c.kind ≠ .eof) :
    c.ahead = c.current :: beforeEof c.upcoming :=
  beforeEof_cons h

theorem kind_eq (c : Cursor) : c.kind = firstKind c.ahead := by
  by_cases h : c.kind = .eof
  · rw [ahead_eq_nil_of_atEnd h, firstKind_nil, h]
  · rw [ahead_eq_cons h, firstKind_cons]
    rfl

theorem atEnd_iff {c : Cursor} : c.atEnd = true ↔ c.ahead = [] := by
  rw [atEnd, decide_eq_true_iff]
  constructor
  · exact ahead_eq_nil_of_atEnd
  · intro h
    rw [kind_eq, h, firstKind_nil]

theorem Closed.upcoming_ne_nil {c : Cursor} (hc : c.Closed) (h : c.kind ≠ .eof) :
    c.upcoming ≠ [] := by
  intro hu
  obtain ⟨t, ht, hk⟩ := hc
  rw [hu, List.mem_singleton] at ht
  subst ht
  exact h hk

theorem nextKind_eq {c : Cursor} (h : c.kind ≠ .eof) : c.nextKind = firstKind c.ahead.tail := by
  rw [ahead_eq_cons h, List.tail_cons, nextKind]
  cases hu : c.upcoming with
  | nil => rfl
  | cons t ts =>
    rw [List.head?_cons, Option.map_some, Option.getD_some]
    by_cases ht : t.kind = .eof
    · rw [beforeEof_cons_eof ht, firstKind_nil, ht]
    · rw [beforeEof_cons ht, firstKind_cons]

/-- There are at most as many tokens ahead as upcoming ones. -/
theorem Closed.length_ahead_le {c : Cursor} (hc : c.Closed) :
    c.ahead.length ≤ c.upcoming.length := by
  by_cases h : c.kind = .eof
  · rw [ahead_eq_nil_of_atEnd h]
    exact Nat.zero_le _
  · obtain ⟨t, ht, hk⟩ := hc
    have hu : t ∈ c.upcoming := by
      rcases List.mem_cons.1 ht with rfl | ht
      · exact absurd hk h
      · exact ht
    have hl : (beforeEof c.upcoming).length ≠ c.upcoming.length := by
      intro he
      have hs : beforeEof c.upcoming = c.upcoming := (List.takeWhile_sublist _).eq_of_length he
      rw [← hs] at hu
      exact kind_ne_eof_of_mem hu hk
    have hle : (beforeEof c.upcoming).length ≤ c.upcoming.length :=
      (List.takeWhile_sublist _).length_le
    rw [ahead_eq_cons h, List.length_cons]
    omega

/-! ## Moving on -/

theorem advance_of_atEnd {c : Cursor} (h : c.kind = .eof) : c.advance = c := by
  rw [advance, if_pos (by rw [atEnd, h]; rfl)]

theorem advance_eq {c : Cursor} {t : Token} {ts : List Token} (h : c.kind ≠ .eof)
    (hu : c.upcoming = t :: ts) : c.advance = ⟨c.current, t, ts⟩ := by
  rw [advance, if_neg (by rw [atEnd, decide_eq_true_iff]; exact h), hu]

theorem Closed.advance {c : Cursor} (hc : c.Closed) : c.advance.Closed := by
  by_cases h : c.kind = .eof
  · rw [advance_of_atEnd h]
    exact hc
  · cases hu : c.upcoming with
    | nil => exact absurd hu (hc.upcoming_ne_nil h)
    | cons t ts =>
      rw [advance_eq h hu]
      obtain ⟨e, he, hk⟩ := hc
      rcases List.mem_cons.1 he with rfl | he
      · exact absurd hk h
      · exact ⟨e, hu ▸ he, hk⟩

theorem Closed.ahead_advance {c : Cursor} (hc : c.Closed) : c.advance.ahead = c.ahead.tail := by
  by_cases h : c.kind = .eof
  · rw [advance_of_atEnd h, ahead_eq_nil_of_atEnd h, List.tail_nil]
  · cases hu : c.upcoming with
    | nil => exact absurd hu (hc.upcoming_ne_nil h)
    | cons t ts =>
      rw [advance_eq h hu, ahead_eq_cons h, List.tail_cons, hu]
      rfl

theorem Closed.previous_advance {c : Cursor} (hc : c.Closed) (h : c.kind ≠ .eof) :
    c.advance.previous = c.current := by
  cases hu : c.upcoming with
  | nil => exact absurd hu (hc.upcoming_ne_nil h)
  | cons t ts => rw [advance_eq h hu]

theorem current_of_ahead {c : Cursor} {t : Token} {ts : List Token} (h : c.ahead = t :: ts) :
    c.current = t ∧ c.kind ≠ .eof := by
  have hk : c.kind ≠ .eof := by
    intro hk
    rw [ahead_eq_nil_of_atEnd hk] at h
    cases h
  rw [ahead_eq_cons hk] at h
  exact ⟨(List.cons.inj h).1, hk⟩

/-! ## Skipping -/

theorem closed_skip {previous current : Token} {upcoming : List Token}
    (hc : ∃ t ∈ current :: upcoming, t.kind = .eof) : (skip previous current upcoming).Closed := by
  induction upcoming generalizing previous current with
  | nil =>
    unfold skip
    split <;> exact hc
  | cons t ts ih =>
    unfold skip
    split
    · exact hc
    · rename_i hn
      apply ih
      obtain ⟨e, he, hk⟩ := hc
      rcases List.mem_cons.1 he with rfl | he
      · simp [hk] at hn
      · exact ⟨e, he, hk⟩

theorem ahead_skip (previous current : Token) (upcoming : List Token) :
    ∃ used, beforeEof (current :: upcoming) = used ++ (skip previous current upcoming).ahead := by
  induction upcoming generalizing previous current with
  | nil =>
    unfold skip
    split <;> exact ⟨[], rfl⟩
  | cons t ts ih =>
    unfold skip
    split
    · exact ⟨[], rfl⟩
    · rename_i hn
      obtain ⟨used, hu⟩ := ih current t
      have hk : current.kind ≠ .eof := by
        intro hk
        simp [hk] at hn
      refine ⟨current :: used, ?_⟩
      rw [beforeEof_cons hk, hu]
      rfl

theorem Closed.synchronize {c : Cursor} (hc : c.Closed) : c.synchronize.Closed :=
  closed_skip hc.advance

/-- Giving up a statement passes at least one token, unless none is left. -/
theorem Closed.ahead_synchronize {c : Cursor} (hc : c.Closed) :
    ∃ used, c.ahead = used ++ c.synchronize.ahead ∧ (c.ahead ≠ [] → used ≠ []) := by
  have hnext := hc.ahead_advance
  obtain ⟨used, hu⟩ := ahead_skip c.advance.previous c.advance.current c.advance.upcoming
  change c.advance.ahead = used ++ c.synchronize.ahead at hu
  cases ha : c.ahead with
  | nil =>
    rw [hnext, ha] at hu
    exact ⟨used, hu, fun h => absurd rfl h⟩
  | cons t ts =>
    rw [hnext, ha, List.tail_cons] at hu
    exact ⟨t :: used, by rw [hu]; rfl, fun _ => List.cons_ne_nil _ _⟩

/-! ## The beginning -/

theorem eof_mem_closeTokens (tokens : List Token) : ∃ t ∈ closeTokens tokens, t.kind = .eof := by
  unfold closeTokens
  split
  · exact ⟨.eofAt 1, List.mem_singleton.2 rfl, rfl⟩
  · rename_i last h
    split
    · rename_i hk
      exact ⟨last, List.mem_of_getLast? h, hk⟩
    · exact ⟨.eofAt last.line, List.mem_append_right _ (List.mem_singleton.2 rfl), rfl⟩

theorem beforeEof_append_eof {tokens : List Token} {t : Token} (h : t.kind = .eof) :
    beforeEof (tokens ++ [t]) = beforeEof tokens := by
  induction tokens with
  | nil => exact beforeEof_cons_eof h
  | cons a as ih =>
    by_cases ha : a.kind = .eof
    · rw [List.cons_append, beforeEof_cons_eof ha, beforeEof_cons_eof ha]
    · rw [List.cons_append, beforeEof_cons ha, beforeEof_cons ha, ih]

theorem beforeEof_closeTokens (tokens : List Token) :
    beforeEof (closeTokens tokens) = beforeEof tokens := by
  unfold closeTokens
  split
  · rename_i h
    rw [List.getLast?_eq_none_iff.1 h]
    exact beforeEof_cons_eof rfl
  · split
    · rfl
    · exact beforeEof_append_eof rfl

theorem closed_ofTokens (tokens : List Token) : (ofTokens tokens).Closed := by
  have h := eof_mem_closeTokens tokens
  unfold ofTokens
  split
  · exact ⟨.eofAt 1, List.mem_singleton.2 rfl, rfl⟩
  · rename_i ht
    rw [ht] at h
    exact h

theorem ahead_ofTokens (tokens : List Token) : (ofTokens tokens).ahead = beforeEof tokens := by
  have hb := beforeEof_closeTokens tokens
  have he := eof_mem_closeTokens tokens
  unfold ofTokens
  split
  · rename_i ht
    rw [ht] at he
    obtain ⟨t, ht, -⟩ := he
    cases ht
  · rename_i ht
    rw [ht] at hb
    exact hb

end Cursor

end LoxLang
