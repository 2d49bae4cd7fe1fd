import LoxLang.Proofs.Scope.Ready
import LoxLang.Proofs.Syntax.Order
import Mathlib.Data.List.Forall2

/-!
Where names are declared.

Which names a scope declares before a place, and so at what distance from there the nearest scope with a
name is, are said by the places of declarations alone (`DeclaredIn`, `NearestAt`).  The scopes of a walk
mirror that: at each place there is one for each block and function around it, with the names that are
declared there so far (`Mirrors`).  A walk through a node changes that only by what the node declares
itself, since all that is declared within it belongs to a scope within it.
-/

namespace LoxLang

/-- The name that a statement declares. -/
def Node.declared? : Node → Option Token
  | .statement (.var name _) => some name
  | .statement (.function name _ _) => some name
  | _ => none

section

variable (programs : List (List Stmt))

/-- The name is a parameter of the function at `scope`, or is declared by a statement that stands
directly in that scope and before `p`. -/
def DeclaredIn (scope : Place) (name : String) (p : Place) : Prop :=
  (∃ function, (scope.node? programs).bind Node.function? = some function ∧
      name ∈ function.1.map (·.lexeme)) ∨
    ∃ (q : Place) (declared : Token), (q.node? programs).bind Node.declared? = some declared ∧
      declared.lexeme = name ∧ (q.enclosing programs).head? = some scope ∧ q.Before p

/-- Of the given scopes, the innermost first, number `d` is the first one that declares the name before
`p`. -/
def NearestIn (places : List Place) (p : Place) (name : String) (d : Nat) : Prop :=
  ∃ scope, places[d]? = some scope ∧ DeclaredIn programs scope name p ∧
    ∀ i < d, ∀ inner, places[i]? = some inner → ¬ DeclaredIn programs inner name p

/-- Of the scopes around `p`, number `d` is the nearest one that declares the name before `p`. -/
def NearestAt (p : Place) (name : String) (d : Nat) : Prop :=
  NearestIn programs (p.enclosing programs) p name d

/-- The scopes of a walk that has come to `p` declare what is declared in these places so far. -/
abbrev Mirrors (places : List Place) (p : Place) (scopes : Scopes) : Prop :=
  List.Forall₂ (fun place scope => ∀ name, scope.declares name = true ↔
    DeclaredIn programs place name p) places scopes

end

/-! ## Scopes around a place -/

namespace Place

variable {programs : List (List Stmt)} {p q scope : Place} {places : List Place} {n : Node}
  {e : Expr} {s : Stmt} {i : Nat}

theorem mem_above_of_mem_enclosing (h : scope ∈ p.enclosing programs) : scope ∈ p.above :=
  (List.mem_filter.1 h).1

theorem mem_above_of_head?_enclosing (h : (p.enclosing programs).head? = some scope) :
    scope ∈ p.above :=
  mem_above_of_mem_enclosing (List.mem_of_head? h)

/-- The scopes around the innermost one are those outward. -/
theorem enclosing_eq_cons (h : p.enclosing programs = scope :: places) :
    places = scope.enclosing programs := by
  obtain ⟨program, path⟩ := p
  induction path with
  | nil => cases h
  | cons i path ih =>
    have hstep : (⟨program, i :: path⟩ : Place).enclosing programs =
        ((⟨program, path⟩ : Place) :: (⟨program, path⟩ : Place).above).filter
          fun q => q.opensScope programs := rfl
    rw [hstep] at h
    cases ho : (⟨program, path⟩ : Place).opensScope programs with
    | true =>
      rw [List.filter_cons_of_pos ho] at h
      obtain ⟨rfl, rfl⟩ := List.cons.inj h
      rfl
    | false =>
      rw [List.filter_cons_of_neg (ne_true_of_eq_false ho)] at h
      exact ih h

/-- The scope in which something below a block or a function stands is that one, or within it. -/
theorem scope_within_of_opens (hn : p.node? programs = some n) (ho : n.opensScope = true)
    (h : p ∈ q.above) :
    ∃ scope, (q.enclosing programs).head? = some scope ∧ p.Within scope := by
  have hp : p.opensScope programs = true := by
    rw [opensScope, hn]
    exact ho
  obtain ⟨program, path⟩ := q
  induction path with
  | nil => cases h
  | cons i path ih =>
    have hw : p.Within ⟨program, path⟩ := mem_above_below.1 h
    have hstep : (⟨program, i :: path⟩ : Place).enclosing programs =
        ((⟨program, path⟩ : Place) :: (⟨program, path⟩ : Place).above).filter
          fun q => q.opensScope programs := rfl
    rw [hstep]
    by_cases hopens : (⟨program, path⟩ : Place).opensScope programs = true
    · rw [List.filter_cons_of_pos hopens]
      exact ⟨_, rfl, hw⟩
    · rw [List.filter_cons_of_neg hopens]
      rcases hw with rfl | habove
      · exact absurd hp hopens
      · exact ih habove

theorem exists_expression_of_mem_children {c : Node}
    (h : (Node.expression e).opensScope = false) (hc : c ∈ (Node.expression e).children) :
    ∃ e', c = .expression e' := by
  cases e with
  | constant value => cases hc
  | read id name => cases hc
  | grouping inner => exact ⟨_, List.mem_singleton.1 hc⟩
  | unary operator operand => exact ⟨_, List.mem_singleton.1 hc⟩
  | assign id name value => exact ⟨_, List.mem_singleton.1 hc⟩
  | binary left operator right =>
    rcases List.mem_cons.1 hc with rfl | hc
    · exact ⟨_, rfl⟩
    · exact ⟨_, List.mem_singleton.1 hc⟩
  | logical left operator right =>
    rcases List.mem_cons.1 hc with rfl | hc
    · exact ⟨_, rfl⟩
    · exact ⟨_, List.mem_singleton.1 hc⟩
  | call callee paren arguments =>
    rcases List.mem_cons.1 hc with rfl | hc
    · exact ⟨_, rfl⟩
    · obtain ⟨e', -, rfl⟩ := List.mem_map.1 hc
      exact ⟨e', rfl⟩
  | function keyword params body => cases h

/-- A statement within an expression stands in a scope within it: only functions have statements. -/
theorem scope_within_of_expression (hn : p.node? programs = some (.expression e)) (h : p.Within q)
    (hq : q.node? programs = some (.statement s)) :
    ∃ scope, (q.enclosing programs).head? = some scope ∧ p.Within scope := by
  -- an expression on the way down has no function above it, as long as no scope is opened
  have hway : ∀ n, q.node? programs = some n → (∃ e, n = .expression e) ∨
      ∃ scope, (q.enclosing programs).head? = some scope ∧ p.Within scope := by
    clear hq
    obtain ⟨program, path⟩ := q
    induction path with
    | nil =>
      intro n hq
      rcases h with rfl | h
      · exact .inl ⟨e, Option.some.inj (hq.symm.trans hn)⟩
      · cases h
    | cons i path ih =>
      intro n hq
      rcases h with rfl | h
      · exact .inl ⟨e, Option.some.inj (hq.symm.trans hn)⟩
      · have hw : p.Within ⟨program, path⟩ := mem_above_below.1 h
        obtain ⟨n', hn'⟩ := Option.isSome_iff_exists.1
          (isSome_node?_of_within (within_below ⟨program, path⟩ i) (Option.isSome_of_eq_some hq))
        have hchild : n'.children[i]? = some n := (node?_below hn' i).symm.trans hq
        by_cases ho : n'.opensScope = true
        · refine .inr ⟨_, ?_, hw⟩
          exact congrArg List.head? (enclosing_below_of_opens hn' ho i)
        · have hsame : (⟨program, i :: path⟩ : Place).enclosing programs =
              (⟨program, path⟩ : Place).enclosing programs :=
            enclosing_below hn' (eq_false_of_ne_true ho) i
          rcases ih hw n' hn' with ⟨e', rfl⟩ | hscope
          · exact .inl (exists_expression_of_mem_children (eq_false_of_ne_true ho)
              (List.mem_of_getElem? hchild))
          · exact .inr (hsame ▸ hscope)
  rcases hway _ hq with ⟨e', he⟩ | hscope
  · cases he
  · exact hscope

/-- A node whose statements, if it has any, stand in a scope of their own. -/
def Closed (n : Node) : Prop :=
  n.opensScope = true ∨ ∀ c ∈ n.children, ∃ e, c = .expression e

theorem scope_within_of_closed (hn : p.node? programs = some n) (hc : Closed n) (h : p ∈ q.above)
    (hq : q.node? programs = some (.statement s)) :
    ∃ scope, (q.enclosing programs).head? = some scope ∧ p.Within scope := by
  rcases hc with ho | hc
  · exact scope_within_of_opens hn ho h
  · rcases within_iff_eq_or_below.1 (Or.inr h) with rfl | ⟨i, hi⟩
    · exact absurd h (not_mem_above_of_within (.refl _))
    · obtain ⟨c, hchild⟩ := Option.isSome_iff_exists.1
        (isSome_node?_of_within hi (Option.isSome_of_eq_some hq))
      obtain ⟨e, rfl⟩ := hc c (List.mem_of_getElem? ((node?_below hn i).symm.trans hchild))
      obtain ⟨scope, hhead, hscope⟩ := scope_within_of_expression hchild hi hq
      exact ⟨scope, hhead, (within_below _ i).trans hscope⟩

end Place

/-! ## What is declared -/

section

variable {programs : List (List Stmt)} {p q m m' scope : Place} {places : List Place} {n : Node}
  {scopes : Scopes} {name : String} {declared : Token} {i : Nat}

theorem exists_statement_of_declared (h : (q.node? programs).bind Node.declared? = some declared) :
    ∃ s, q.node? programs = some (.statement s) := by
  obtain ⟨n, hn, hd⟩ := Option.bind_eq_some_iff.1 h
  unfold Node.declared? at hd
  split at hd
  · exact ⟨_, hn⟩
  · exact ⟨_, hn⟩
  · cases hd

/-- Between a node and its first child there is only what the node itself declares. -/
theorem declaredIn_below_zero : DeclaredIn programs scope name (p.below 0) ↔
    DeclaredIn programs scope name p ∨
      ∃ declared, (p.node? programs).bind Node.declared? = some declared ∧ declared.lexeme = name ∧
        (p.enclosing programs).head? = some scope := by
  simp only [DeclaredIn, Place.before_below_zero]
  constructor
  · rintro (h | ⟨q, declared, hd, hname, hhead, hq | rfl⟩)
    · exact .inl (.inl h)
    · exact .inl (.inr ⟨q, declared, hd, hname, hhead, hq⟩)
    · exact .inr ⟨declared, hd, hname, hhead⟩
  · rintro ((h | ⟨q, declared, hd, hname, hhead, hq⟩) | ⟨declared, hd, hname, hhead⟩)
    · exact .inl h
    · exact .inr ⟨q, declared, hd, hname, hhead, .inl hq⟩
    · exact .inr ⟨p, declared, hd, hname, hhead, .inr rfl⟩

theorem nearestIn_cons_zero {place : Place} :
    NearestIn programs (place :: places) p name 0 ↔ DeclaredIn programs place name p := by
  constructor
  · rintro ⟨scope, hscope, hdeclared, -⟩
    obtain rfl : place = scope := Option.some.inj hscope
    exact hdeclared
  · exact fun h => ⟨place, rfl, h, fun i hi => absurd hi (Nat.not_lt_zero i)⟩

theorem nearestIn_cons_succ {place : Place} {d : Nat} :
    NearestIn programs (place :: places) p name (d + 1) ↔
      ¬ DeclaredIn programs place name p ∧ NearestIn programs places p name d := by
  constructor
  · rintro ⟨scope, hscope, hdeclared, hnone⟩
    refine ⟨hnone 0 (Nat.succ_pos d) place rfl, scope, hscope, hdeclared, fun i hi inner hinner => ?_⟩
    exact hnone (i + 1) (Nat.succ_lt_succ hi) inner hinner
  · rintro ⟨hplace, scope, hscope, hdeclared, hnone⟩
    refine ⟨scope, hscope, hdeclared, fun i hi inner hinner => ?_⟩
    cases i with
    | zero =>
      obtain rfl : place = inner := Option.some.inj hinner
      exact hplace
    | succ i => exact hnone i (Nat.lt_of_succ_lt_succ hi) inner hinner

theorem nearestIn_unique {d d' : Nat} (h : NearestIn programs places p name d)
    (h' : NearestIn programs places p name d') : d = d' := by
  obtain ⟨scope, hscope, hdeclared, hnone⟩ := h
  obtain ⟨scope', hscope', hdeclared', hnone'⟩ := h'
  rcases Nat.lt_trichotomy d d' with hlt | heq | hlt
  · exact absurd hdeclared (hnone' d hlt scope hscope)
  · exact heq
  · exact absurd hdeclared' (hnone d' hlt scope' hscope')

/-- A name has one distance or none. -/
theorem exists_distance (programs : List (List Stmt)) (p : Place) (name : String) :
    ∃ distance : Option Nat, ∀ d, distance = some d ↔ NearestAt programs p name d := by
  by_cases h : ∃ d, NearestAt programs p name d
  · obtain ⟨d, hd⟩ := h
    refine ⟨some d, fun d' => ⟨fun heq => Option.some.inj heq ▸ hd, fun hd' => ?_⟩⟩
    exact congrArg some (nearestIn_unique hd hd')
  · exact ⟨none, fun d => iff_of_false (fun heq => nomatch heq) fun hd => h ⟨d, hd⟩⟩

namespace Mirrors

/-- Nothing is declared in these scopes on the way from one place to another. -/
theorem pass (h : Mirrors programs places m scopes) (hle : ∀ q : Place, q.Before m → q.Before m')
    (hquiet : ∀ (q : Place) s, q.node? programs = some (.statement s) → q.Before m' → ¬ q.Before m →
      ∀ scope ∈ places, (q.enclosing programs).head? ≠ some scope) :
    Mirrors programs places m' scopes := by
  have hsame : ∀ place ∈ places, ∀ name,
      DeclaredIn programs place name m ↔ DeclaredIn programs place name m' := by
    intro place hplace name
    refine or_congr Iff.rfl ⟨?_, ?_⟩
    · rintro ⟨q, declared, hd, hname, hhead, hq⟩
      exact ⟨q, declared, hd, hname, hhead, hle q hq⟩
    · rintro ⟨q, declared, hd, hname, hhead, hq⟩
      obtain ⟨s, hs⟩ := exists_statement_of_declared hd
      refine ⟨q, declared, hd, hname, hhead, Classical.byContradiction fun hm => ?_⟩
      exact hquiet q s hs hq hm place hplace hhead
  induction h with
  | nil => exact .nil
  | cons hhead _ ih =>
    refine .cons (fun name => (hhead name).trans (hsame _ List.mem_cons_self name)) (ih ?_ ?_)
    · exact fun q s hs hq hm scope hscope => hquiet q s hs hq hm scope (List.mem_cons_of_mem _ hscope)
    · exact fun place hplace => hsame place (List.mem_cons_of_mem _ hplace)

/-- Behind an expression. -/
theorem next {e : Expr} (h : Mirrors programs ((p.below i).enclosing programs) (p.below i) scopes)
    (hn : (p.below i).node? programs = some (.expression e)) :
    Mirrors programs ((p.below i).enclosing programs) (p.below (i + 1)) scopes := by
  refine h.pass (fun q hq => Place.before_below_succ.2 (.inl hq)) ?_
  intro q s hs hq hm scope hscope hhead
  have hw := (Place.before_below_succ.1 hq).resolve_left hm
  obtain ⟨inner, hinner, hwithin⟩ := Place.scope_within_of_expression hn hw hs
  obtain rfl := Option.some.inj (hinner.symm.trans hhead)
  exact Place.not_mem_above_of_within hwithin (Place.mem_above_of_mem_enclosing hscope)

/-- Behind all children of a node, if their statements stand in a scope of their own. -/
theorem behind (h : Mirrors programs (p.enclosing programs) (p.below 0) scopes)
    (hn : p.node? programs = some n) (hc : Place.Closed n) :
    Mirrors programs (p.enclosing programs) (p.below n.children.length) scopes := by
  refine h.pass (fun q hq => ?_) ?_
  · rcases Place.before_below_iff.1 hq with hq | rfl | ⟨i, hi, -⟩
    · exact Place.before_below_iff.2 (.inl hq)
    · exact Place.before_below_iff.2 (.inr (.inl rfl))
    · cases hi
  · intro q s hs hq hm scope hscope hhead
    rw [Place.before_below_zero, not_or] at hm
    have hw := ((Place.before_behind hn (Option.isSome_of_eq_some hs)).1 hq).resolve_left hm.1
    have habove : p ∈ q.above := hw.resolve_left hm.2
    obtain ⟨inner, hinner, hwithin⟩ := Place.scope_within_of_closed hn hc habove hs
    obtain rfl := Option.some.inj (hinner.symm.trans hhead)
    exact Place.not_mem_above_of_within hwithin (Place.mem_above_of_mem_enclosing hscope)

/-- The place behind all children of a child is the next child. -/
theorem after (h : Mirrors programs places ((p.below i).below n.children.length) scopes)
    (hn : (p.below i).node? programs = some n) : Mirrors programs places (p.below (i + 1)) scopes := by
  refine List.Forall₂.imp (fun place scope hplace name => (hplace name).trans ?_) h
  refine or_congr Iff.rfl ?_
  have hbefore : ∀ (q : Place) declared, (q.node? programs).bind Node.declared? = some declared →
      (q.Before ((p.below i).below n.children.length) ↔ q.Before (p.below (i + 1))) := by
    intro q declared hd
    obtain ⟨s, hs⟩ := exists_statement_of_declared hd
    exact Place.before_next hn (Option.isSome_of_eq_some hs)
  constructor
  · rintro ⟨q, declared, hd, hname, hhead, hq⟩
    exact ⟨q, declared, hd, hname, hhead, (hbefore q declared hd).1 hq⟩
  · rintro ⟨q, declared, hd, hname, hhead, hq⟩
    exact ⟨q, declared, hd, hname, hhead, (hbefore q declared hd).2 hq⟩

/-- Below a node that declares nothing. -/
theorem first (h : Mirrors programs places p scopes) (hn : p.node? programs = some n)
    (hd : n.declared? = none) : Mirrors programs places (p.below 0) scopes := by
  refine List.Forall₂.imp (fun place scope hplace name => (hplace name).trans ?_) h
  rw [declaredIn_below_zero]
  refine ⟨.inl, fun h' => h'.resolve_right ?_⟩
  rintro ⟨declared, hdeclared, -⟩
  rw [hn] at hdeclared
  cases hd.symm.trans hdeclared

/-- Below a node that declares a name, when the innermost scope has got it. -/
theorem declare (h : Mirrors programs (p.enclosing programs) p scopes)
    (hd : (p.node? programs).bind Node.declared? = some declared) {f : Scope → Scope}
    (hf : ∀ s name, (f s).declares name = true ↔ name = declared.lexeme ∨ s.declares name = true) :
    Mirrors programs (p.enclosing programs) (p.below 0) (Scopes.inner f scopes) := by
  have hzero : ∀ place name, DeclaredIn programs place name (p.below 0) ↔
      DeclaredIn programs place name p ∨
        (declared.lexeme = name ∧ (p.enclosing programs).head? = some place) := by
    intro place name
    rw [declaredIn_below_zero]
    refine or_congr Iff.rfl ⟨?_, fun h => ⟨declared, hd, h⟩⟩
    rintro ⟨other, hother, hrest⟩
    obtain rfl := Option.some.inj (hd.symm.trans hother)
    exact hrest
  generalize hplaces : p.enclosing programs = places at h
  cases h with
  | nil => exact .nil
  | @cons place scope outer rest hhead htail =>
    have houter := Place.enclosing_eq_cons hplaces
    refine .cons (fun name => ?_) ?_
    · rw [hf, hhead name, hzero, hplaces, or_comm, eq_comm]
      exact or_congr Iff.rfl (and_iff_left rfl).symm
    · have hne : ∀ other ∈ outer, (p.enclosing programs).head? ≠ some other := by
        intro other hother heq
        rw [hplaces] at heq
        obtain rfl : place = other := Option.some.inj heq
        rw [houter] at hother
        exact Place.not_mem_above_of_within (.refl _) (Place.mem_above_of_mem_enclosing hother)
      clear hhead houter hplaces
      induction htail with
      | nil => exact .nil
      | cons hscope _ ih =>
        refine .cons (fun name => ?_) (ih fun other hother => hne other (List.mem_cons_of_mem _ hother))
        rw [hscope name, hzero]
        exact ⟨.inl, fun h' => h'.resolve_right fun hsame => hne _ List.mem_cons_self hsame.2⟩

/-- The nearest scope is at the distance that the walk finds. -/
theorem distance?_eq_some_iff (h : Mirrors programs places p scopes) {d : Nat} :
    scopes.distance? name = some d ↔ NearestIn programs places p name d := by
  induction h generalizing d with
  | nil =>
    constructor
    · intro hd
      cases hd
    · rintro ⟨scope, hscope, -⟩
      cases hscope
  | @cons place scope places scopes hhead _ ih =>
    have hcons : Scopes.distance? (scope :: scopes) name =
        if scope.declares name then some 0 else (Scopes.distance? scopes name).map (· + 1) :=
      List.findIdx?_cons
    rw [hcons]
    by_cases hdeclares : scope.declares name = true
    · have hplace := (hhead name).1 hdeclares
      rw [if_pos hdeclares]
      cases d with
      | zero => exact iff_of_true rfl (nearestIn_cons_zero.2 hplace)
      | succ d => exact iff_of_false (fun h => nomatch h) fun h => (nearestIn_cons_succ.1 h).1 hplace
    · have hplace := fun h => hdeclares ((hhead name).2 h)
      rw [if_neg hdeclares, Option.map_eq_some_iff]
      cases d with
      | zero =>
        refine iff_of_false ?_ fun h => hplace (nearestIn_cons_zero.1 h)
        rintro ⟨d, -, hd⟩
        cases hd
      | succ d =>
        rw [nearestIn_cons_succ, ← ih]
        simp only [Nat.add_right_cancel_iff, exists_eq_right]
        exact (and_iff_right hplace).symm

end Mirrors

end

end LoxLang
