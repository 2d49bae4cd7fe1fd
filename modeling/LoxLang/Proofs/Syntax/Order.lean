import LoxLang.Proofs.Syntax.Place

/-!
The order of a walk through a program.

A walk goes from left to right and comes to a node before the nodes below it, so places are ordered by
their ways from the top, as words are in a dictionary (`Place.Before`).  Between a node and its first
child lies nothing, and between a child and the next one lies what is within the former.  So the places
from a node up to one more than its last child are those within it (`Place.before_behind`).
-/

namespace LoxLang

/-! ## Dictionary order -/

theorem lt_concat_zero {xs ys : List Nat} : xs < ys ++ [0] ↔ xs < ys ∨ xs = ys := by
  induction ys generalizing xs with
  | nil =>
    cases xs with
    | nil => simp
    | cons x xs =>
      simp only [List.nil_append, List.cons_lt_cons_iff, Nat.not_lt_zero, List.not_lt_nil, and_false,
        reduceCtorEq, or_self]
  | cons y ys ih =>
    cases xs with
    | nil => simp
    | cons x xs =>
      simp only [List.cons_append, List.cons_lt_cons_iff, ih, List.cons.injEq]
      constructor
      · rintro (hlt | ⟨rfl, hlt | rfl⟩)
        · exact .inl (.inl hlt)
        · exact .inl (.inr ⟨rfl, hlt⟩)
        · exact .inr ⟨rfl, rfl⟩
      · rintro ((hlt | ⟨rfl, hlt⟩) | ⟨rfl, rfl⟩)
        · exact .inl hlt
        · exact .inr ⟨rfl, .inl hlt⟩
        · exact .inr ⟨rfl, .inr rfl⟩

theorem lt_concat_succ {xs ys : List Nat} {i : Nat} :
    xs < ys ++ [i + 1] ↔ xs < ys ++ [i] ∨ ys ++ [i] <+: xs := by
  induction ys generalizing xs with
  | nil =>
    cases xs with
    | nil => simp
    | cons x xs =>
      simp only [List.nil_append, List.cons_lt_cons_iff, List.not_lt_nil, and_false, or_false,
        List.cons_prefix_cons, List.nil_prefix, and_true]
      omega
  | cons y ys ih =>
    cases xs with
    | nil => simp
    | cons x xs =>
      simp only [List.cons_append, List.cons_lt_cons_iff, ih, List.cons_prefix_cons]
      constructor
      · rintro (hlt | ⟨rfl, hlt | hprefix⟩)
        · exact .inl (.inl hlt)
        · exact .inl (.inr ⟨rfl, hlt⟩)
        · exact .inr ⟨rfl, hprefix⟩
      · rintro ((hlt | ⟨rfl, hlt⟩) | ⟨rfl, hprefix⟩)
        · exact .inl hlt
        · exact .inr ⟨rfl, .inl hlt⟩
        · exact .inr ⟨rfl, .inr hprefix⟩

namespace Place

/-- A walk comes to `p` before it comes to `q`. -/
def Before (p q : Place) : Prop :=
  p.program = q.program ∧ p.path.reverse < q.path.reverse

/-- `q` is the node at `p` or a node below it. -/
def Within (p q : Place) : Prop := q = p ∨ p ∈ q.above

variable {programs : List (List Stmt)} {p q r : Place} {n : Node} {i j k : Nat}

/-- A walk comes to `p` no later than to `q`. -/
def Upto (p q : Place) : Prop := p = q ∨ p.Before q

/-- A walk comes to `q` on its way from `start` to `stop`, which is left out. -/
def Between (start stop q : Place) : Prop := ¬ q.Before start ∧ q.Before stop

theorem not_before_self (p : Place) : ¬ p.Before p := fun h => List.lt_irrefl _ h.2

theorem Before.trans (h : p.Before q) (h' : q.Before r) : p.Before r :=
  ⟨h.1.trans h'.1, List.lt_trans h.2 h'.2⟩

theorem Upto.trans (h : p.Upto q) (h' : q.Upto r) : p.Upto r := by
  rcases h with rfl | h
  · exact h'
  · rcases h' with rfl | h'
    · exact .inr h
    · exact .inr (h.trans h')

theorem Before.upto (h : p.Before q) (h' : q.Upto r) : p.Before r := by
  rcases h' with rfl | h'
  · exact h
  · exact h.trans h'

theorem Upto.program_eq (h : p.Upto q) : p.program = q.program := by
  rcases h with rfl | h
  · rfl
  · exact h.1

/-- What is not before a place, in the same program, is behind all that is. -/
theorem Before.of_not_before (h : p.Before q) (hr : ¬ r.Before q) (hprogram : r.program = q.program) :
    p.Before r := by
  refine ⟨h.1.trans hprogram.symm, ?_⟩
  have hle := List.not_lt.1 fun hlt => hr ⟨hprogram, hlt⟩
  rcases List.le_iff_lt_or_eq.1 hle with hlt | heq
  · exact List.lt_trans h.2 hlt
  · exact heq ▸ h.2

theorem between_iff_or (h : p.Upto q) (h' : q.Upto r) {m : Place} :
    Between p r m ↔ Between p q m ∨ Between q r m := by
  constructor
  · rintro ⟨hp, hr⟩
    by_cases hq : m.Before q
    · exact .inl ⟨hp, hq⟩
    · exact .inr ⟨hq, hr⟩
  · rintro (⟨hp, hq⟩ | ⟨hq, hr⟩)
    · exact ⟨hp, hq.upto h'⟩
    · exact ⟨fun hp => hq (hp.upto h), hr⟩

/-! ## What is within a node -/

theorem Within.refl (p : Place) : p.Within p := .inl rfl

theorem mem_above_below : p ∈ (q.below i).above ↔ p.Within q := by
  rw [above_below, List.mem_cons, Within, eq_comm]

theorem eq_below_or_top (q : Place) : q.path = [] ∨ ∃ (r : Place) (i : Nat), q = r.below i := by
  obtain ⟨program, path⟩ := q
  cases path with
  | nil => exact .inl rfl
  | cons i path => exact .inr ⟨⟨program, path⟩, i, rfl⟩

/-- Being within is being at the end of a longer way. -/
theorem within_iff : p.Within q ↔ p.program = q.program ∧ p.path <:+ q.path := by
  obtain ⟨program, path⟩ := q
  induction path with
  | nil =>
    obtain ⟨program', path'⟩ := p
    rw [List.suffix_nil]
    constructor
    · rintro (h | h)
      · cases h
        exact ⟨rfl, rfl⟩
      · cases h
    · rintro ⟨h, h'⟩
      cases h
      cases h'
      exact .inl rfl
  | cons i path ih =>
    have hstep : p.Within ⟨program, i :: path⟩ ↔ (⟨program, i :: path⟩ : Place) = p ∨
        p.Within ⟨program, path⟩ := or_congr Iff.rfl (mem_above_below (q := ⟨program, path⟩) (i := i))
    rw [hstep, ih, List.suffix_cons_iff]
    obtain ⟨program', path'⟩ := p
    constructor
    · rintro (h | ⟨h, hs⟩)
      · cases h
        exact ⟨rfl, .inl rfl⟩
      · exact ⟨h, .inr hs⟩
    · rintro ⟨h, rfl | hs⟩
      · cases h
        exact .inl rfl
      · exact .inr ⟨h, hs⟩

theorem Within.trans (h : p.Within q) (h' : q.Within r) : p.Within r := by
  rw [within_iff] at h h' ⊢
  exact ⟨h.1.trans h'.1, h.2.trans h'.2⟩

theorem within_below (p : Place) (i : Nat) : p.Within (p.below i) :=
  .inr (mem_above_below.2 (.refl p))

/-- What is within a node is the node itself, or within one of its children. -/
theorem within_iff_eq_or_below : p.Within q ↔ q = p ∨ ∃ i, (p.below i).Within q := by
  constructor
  · intro h
    obtain ⟨hprogram, front, hpath⟩ := within_iff.1 h
    rcases List.eq_nil_or_concat front with rfl | ⟨front, i, rfl⟩
    · left
      obtain ⟨program, path⟩ := q
      obtain ⟨program', path'⟩ := p
      cases hprogram
      cases hpath
      rfl
    · refine .inr ⟨i, within_iff.2 ⟨hprogram, front, ?_⟩⟩
      rw [← hpath, List.concat_eq_append, List.append_assoc]
      rfl
  · rintro (rfl | ⟨i, h⟩)
    · exact .refl _
    · exact (within_below p i).trans h

/-- Nothing is above itself. -/
theorem not_mem_above_of_within (h : p.Within q) : q ∉ p.above := by
  intro habove
  obtain ⟨-, hs⟩ := within_iff.1 h
  rcases eq_below_or_top p with hp | ⟨r, i, rfl⟩
  · rw [above, hp] at habove
    cases habove
  · have hr := (within_iff.1 (mem_above_below.1 habove)).2
    have hlt : q.path.length ≤ r.path.length := hr.length_le
    have hle : r.path.length + 1 ≤ q.path.length := hs.length_le
    omega

/-- Above what is there, there are nodes. -/
theorem isSome_node?_of_within (h : p.Within q) (hq : (q.node? programs).isSome = true) :
    (p.node? programs).isSome = true := by
  obtain ⟨program, path⟩ := q
  induction path with
  | nil =>
    rcases h with rfl | h
    · exact hq
    · cases h
  | cons i path ih =>
    rcases h with rfl | h
    · exact hq
    · refine ih (mem_above_below.1 h) ?_
      cases hn : (⟨program, path⟩ : Place).node? programs with
      | some n => rfl
      | none =>
        have hroot : ((programs[program]?).bind fun ss => (Node.program ss).at? path) = none := hn
        have hnone : (⟨program, i :: path⟩ : Place).node? programs = none := by
          show ((programs[program]?).bind fun ss =>
            ((Node.program ss).at? path).bind fun n => n.children[i]?) = none
          rw [← Option.bind_assoc, hroot]
          rfl
        rw [hnone] at hq
        cases hq

/-! ## The order of nodes -/

/-- Nothing lies between a node and its first child. -/
theorem before_below_zero : q.Before (p.below 0) ↔ q.Before p ∨ q = p := by
  have hpath : (p.below 0).path.reverse = p.path.reverse ++ [0] := List.reverse_cons
  rw [Before, hpath, lt_concat_zero, and_or_left, List.reverse_inj]
  refine or_congr Iff.rfl ⟨?_, ?_⟩
  · rintro ⟨hprogram, hq⟩
    obtain ⟨program, path⟩ := q
    obtain ⟨program', path'⟩ := p
    cases hprogram
    cases hq
    rfl
  · rintro rfl
    exact ⟨rfl, rfl⟩

/-- Between a child and the next one lies what is within the former. -/
theorem before_below_succ :
    q.Before (p.below (i + 1)) ↔ q.Before (p.below i) ∨ (p.below i).Within q := by
  have hpath : ∀ i, (p.below i).path.reverse = p.path.reverse ++ [i] := fun i => List.reverse_cons
  rw [Before, hpath, lt_concat_succ, and_or_left, within_iff, ← hpath i, List.reverse_prefix,
    @eq_comm _ (p.below i).program]
  rfl

theorem before_below_iff : q.Before (p.below k) ↔
    q.Before p ∨ q = p ∨ ∃ i, i < k ∧ (p.below i).Within q := by
  induction k with
  | zero => simp [before_below_zero]
  | succ k ih =>
    rw [before_below_succ, ih, or_assoc, or_assoc]
    refine or_congr Iff.rfl (or_congr Iff.rfl ⟨?_, ?_⟩)
    · rintro (⟨i, hi, h⟩ | h)
      · exact ⟨i, Nat.lt_succ_of_lt hi, h⟩
      · exact ⟨k, Nat.lt_succ_self k, h⟩
    · rintro ⟨i, hi, h⟩
      rcases Nat.lt_succ_iff_lt_or_eq.1 hi with hlt | rfl
      · exact .inl ⟨i, hlt, h⟩
      · exact .inr h

theorem before_below (p : Place) (i : Nat) : p.Before (p.below i) :=
  before_below_iff.2 (.inr (.inl rfl))

theorem between_below_zero : Between p (p.below 0) q ↔ q = p := by
  rw [Between, before_below_zero]
  constructor
  · rintro ⟨hq, h⟩
    exact h.resolve_left hq
  · rintro rfl
    exact ⟨not_before_self q, .inr rfl⟩

theorem upto_below_succ (p : Place) (i : Nat) : (p.below i).Upto (p.below (i + 1)) :=
  .inr (before_below_succ.2 (.inr (.refl _)))

theorem before_of_mem_above (h : p ∈ q.above) : p.Before q := by
  obtain ⟨program, path⟩ := q
  induction path with
  | nil => cases h
  | cons i path ih =>
    have hlast : (⟨program, path⟩ : Place).Before ⟨program, i :: path⟩ := before_below _ i
    rcases mem_above_below (q := ⟨program, path⟩) (i := i).1 h with heq | habove
    · exact heq ▸ hlast
    · exact (ih habove).trans hlast

/-- The places from a node up to one more than its last child are those within it. -/
theorem before_behind (hn : p.node? programs = some n) (hq : (q.node? programs).isSome = true) :
    q.Before (p.below n.children.length) ↔ q.Before p ∨ p.Within q := by
  rw [before_below_iff, within_iff_eq_or_below]
  refine or_congr Iff.rfl (or_congr Iff.rfl ⟨fun ⟨i, _, h⟩ => ⟨i, h⟩, fun ⟨i, h⟩ => ⟨i, ?_, h⟩⟩)
  have hchild := isSome_node?_of_within h hq
  rw [node?_below hn] at hchild
  exact (List.getElem?_eq_some_iff.1 (Option.eq_some_of_isSome hchild)).1

/-- So one may go on with the next child. -/
theorem before_next (hn : (p.below i).node? programs = some n)
    (hq : (q.node? programs).isSome = true) :
    q.Before ((p.below i).below n.children.length) ↔ q.Before (p.below (i + 1)) := by
  rw [before_behind hn hq, before_below_succ]

end Place

end LoxLang
