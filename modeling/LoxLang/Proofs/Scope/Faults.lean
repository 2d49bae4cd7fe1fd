import LoxLang.Proofs.Scope.Declared

/-!
Where the faults of names are.

Each fault of a name has its place, and at the place of a function a slot: the name of the function
comes before its parameters (`FaultAt`).  Findings cover a stretch of a walk if their faults are those
of the places on that stretch, in order, and their references those of the nodes there, each at its
distance (`Covers`).  Two findings one after the other cover the two stretches together.
-/

namespace LoxLang

section

variable (programs : List (List Stmt))

/-- The innermost scope around `p` has declared the name before `p`. -/
def Redeclared (p : Place) (name : String) : Prop :=
  ∃ scope, (p.enclosing programs).head? = some scope ∧ DeclaredIn programs scope name p

/-- `p` is in the initializer of a variable with that name, and the scopes around both are the same:
there are some, and no function of the initializer is around `p`. -/
def InOwnInitializer (p : Place) (name : String) : Prop :=
  p.enclosing programs ≠ [] ∧ Initializing programs p 0 name

/-- `p` is inside a function. -/
def InFunction (p : Place) : Prop :=
  ∃ q ∈ p.above, ∃ function, (q.node? programs).bind Node.function? = some function

/-- The faults of names at a place, each in its slot. -/
inductive FaultAt (p : Place) : Nat → TokenError → Prop
  /-- A statement declares a name that was declared earlier in the same scope. -/
  | redeclared {declared : Token} :
    (p.node? programs).bind Node.declared? = some declared → Redeclared programs p declared.lexeme →
      FaultAt p 0 ⟨declared, .alreadyDeclared declared.lexeme⟩
  /-- A parameter has the name of an earlier one. -/
  | parameter {function : List Token × List Stmt} {i : Nat} {param : Token} :
    (p.node? programs).bind Node.function? = some function → function.1[i]? = some param →
      param.lexeme ∈ (function.1.take i).map (·.lexeme) →
      FaultAt p (i + 1) ⟨param, .alreadyDeclared param.lexeme⟩
  /-- A variable is read in its own initializer. -/
  | initializer {id : NodeId} {name : Token} :
    p.node? programs = some (.expression (.read id name)) → InOwnInitializer programs p name.lexeme →
      FaultAt p 0 ⟨name, .readInOwnInitializer name.lexeme⟩
  /-- A `return` is outside all functions. -/
  | topLevel {keyword : Token} {value : Option Expr} :
    p.node? programs = some (.statement (.return keyword value)) → ¬ InFunction programs p →
      FaultAt p 0 ⟨keyword, .returnAtTopLevel⟩

/-- A fault with its place. -/
structure Located where
  place : Place
  slot : Nat
  error : TokenError

/-- A walk comes to the former fault first. -/
def Located.Earlier (x y : Located) : Prop :=
  x.place.Before y.place ∨ x.place = y.place ∧ x.slot < y.slot

/-- The findings are those of the nodes from `start` up to `stop`. -/
structure Covers (start stop : Place) (findings : List Finding) : Prop where
  upto : start.Upto stop
  faults : ∃ located : List Located, resolutionFaults findings = located.map (·.error) ∧
    located.Pairwise Located.Earlier ∧
    ∀ x, x ∈ located ↔ FaultAt programs x.place x.slot x.error ∧ Place.Between start stop x.place
  references : ∀ use distance, .reference use distance ∈ findings ↔
    ∃ p, Place.Between start stop p ∧ (p.node? programs).bind Node.reference? = some use ∧
      ∀ d, distance = some d ↔ NearestAt programs p use.name.lexeme d

end

variable {programs : List (List Stmt)} {p q start middle stop : Place} {n : Node} {slot i : Nat}
  {e : TokenError} {xs ys : List Finding} {scopes : Scopes}

/-- All faults of names belong to the phase of resolution. -/
theorem FaultAt.phase_eq (h : FaultAt programs p slot e) : e.cause.phase = .resolution := by
  cases h <;> rfl

theorem FaultAt.isSome_node? (h : FaultAt programs p slot e) :
    (p.node? programs).isSome = true := by
  cases h with
  | redeclared hd _ =>
    obtain ⟨n, hn, -⟩ := Option.bind_eq_some_iff.1 hd
    exact Option.isSome_of_eq_some hn
  | parameter hf _ _ =>
    obtain ⟨n, hn, -⟩ := Option.bind_eq_some_iff.1 hf
    exact Option.isSome_of_eq_some hn
  | initializer hn _ => exact Option.isSome_of_eq_some hn
  | topLevel hn _ => exact Option.isSome_of_eq_some hn

/-- The faults at a place go by the node there. -/
theorem faultAt_iff (hn : p.node? programs = some n) : FaultAt programs p slot e ↔
    (slot = 0 ∧ ∃ declared, n.declared? = some declared ∧ Redeclared programs p declared.lexeme ∧
      e = ⟨declared, .alreadyDeclared declared.lexeme⟩) ∨
    (∃ function i param, n.function? = some function ∧ slot = i + 1 ∧ function.1[i]? = some param ∧
      param.lexeme ∈ (function.1.take i).map (·.lexeme) ∧
      e = ⟨param, .alreadyDeclared param.lexeme⟩) ∨
    (slot = 0 ∧ ∃ id name, n = .expression (.read id name) ∧
      InOwnInitializer programs p name.lexeme ∧ e = ⟨name, .readInOwnInitializer name.lexeme⟩) ∨
    slot = 0 ∧ ∃ keyword value, n = .statement (.return keyword value) ∧ ¬ InFunction programs p ∧
      e = ⟨keyword, .returnAtTopLevel⟩ := by
  have hbind : ∀ {α : Type} (f : Node → Option α), (p.node? programs).bind f = f n :=
    fun f => by rw [hn, Option.bind_some]
  constructor
  · intro h
    cases h with
    | redeclared hd hr => exact .inl ⟨rfl, _, (hbind _).symm.trans hd, hr, rfl⟩
    | parameter hf hparam hp =>
      exact .inr (.inl ⟨_, _, _, (hbind _).symm.trans hf, rfl, hparam, hp, rfl⟩)
    | initializer hr hinit =>
      exact .inr (.inr (.inl ⟨rfl, _, _, Option.some.inj (hn.symm.trans hr), hinit, rfl⟩))
    | topLevel hr htop =>
      exact .inr (.inr (.inr ⟨rfl, _, _, Option.some.inj (hn.symm.trans hr), htop, rfl⟩))
  · rintro (⟨rfl, declared, hd, hr, rfl⟩ | ⟨function, i, param, hf, rfl, hparam, hp, rfl⟩ |
      ⟨rfl, id, name, rfl, hinit, rfl⟩ | ⟨rfl, keyword, value, rfl, htop, rfl⟩)
    · exact .redeclared ((hbind _).trans hd) hr
    · exact .parameter ((hbind _).trans hf) hparam hp
    · exact .initializer hn hinit
    · exact .topLevel hn htop

/-! ## Stretches -/

namespace Covers

theorem refl (p : Place) : Covers programs p p [] where
  upto := .inl rfl
  faults := ⟨[], rfl, .nil, fun x => by simp [Place.Between]⟩
  references := fun use distance => by simp [Place.Between]

theorem append (h : Covers programs start middle xs) (h' : Covers programs middle stop ys) :
    Covers programs start stop (xs ++ ys) where
  upto := h.upto.trans h'.upto
  faults := by
    obtain ⟨located, heq, hsorted, hmem⟩ := h.faults
    obtain ⟨located', heq', hsorted', hmem'⟩ := h'.faults
    refine ⟨located ++ located', ?_, List.pairwise_append.2 ⟨hsorted, hsorted', ?_⟩, fun x => ?_⟩
    · rw [resolutionFaults, List.filterMap_append, List.map_append, ← heq, ← heq']
      rfl
    · intro x hx y hy
      have hxm := ((hmem x).1 hx).2.2
      obtain ⟨hym, hys⟩ := ((hmem' y).1 hy).2
      exact .inl (hxm.of_not_before hym (hys.1.trans h'.upto.program_eq.symm))
    · rw [List.mem_append, hmem, hmem', Place.between_iff_or h.upto h'.upto, and_or_left]
  references := by
    intro use distance
    rw [List.mem_append, h.references, h'.references]
    simp only [Place.between_iff_or h.upto h'.upto, or_and_right, exists_or]

/-- References may come in another order. -/
theorem comm (h : Covers programs start stop (xs ++ ys)) (hxs : resolutionFaults xs = []) :
    Covers programs start stop (ys ++ xs) where
  upto := h.upto
  faults := by
    obtain ⟨located, heq, hrest⟩ := h.faults
    refine ⟨located, ?_, hrest⟩
    rw [← heq]
    show (ys ++ xs).filterMap _ = (xs ++ ys).filterMap _
    rw [List.filterMap_append, List.filterMap_append, show xs.filterMap _ = [] from hxs,
      List.append_nil, List.nil_append]
  references := by
    intro use distance
    rw [← h.references, List.mem_append, List.mem_append, or_comm]

/-- The place behind all children of a child is the next child. -/
theorem next (h : Covers programs start ((p.below i).below n.children.length) xs)
    (hn : (p.below i).node? programs = some n) (hs : start.Upto (p.below i)) :
    Covers programs start (p.below (i + 1)) xs where
  upto := hs.trans (Place.upto_below_succ p i)
  faults := by
    obtain ⟨located, heq, hsorted, hmem⟩ := h.faults
    refine ⟨located, heq, hsorted, fun x => (hmem x).trans (and_congr_right fun hx => ?_)⟩
    exact and_congr_right fun _ => Place.before_next hn hx.isSome_node?
  references := by
    intro use distance
    rw [h.references]
    refine exists_congr fun q => and_congr_left fun hq => and_congr_right fun _ => ?_
    obtain ⟨n', hn', -⟩ := Option.bind_eq_some_iff.1 hq.1
    exact Place.before_next hn (Option.isSome_of_eq_some hn')

/-- The findings at one node, with its faults slot by slot. -/
theorem own (slots : List (Nat × TokenError)) (hfaults : resolutionFaults xs = slots.map (·.2))
    (hsorted : slots.Pairwise fun x y => x.1 < y.1)
    (hmem : ∀ slot e, (slot, e) ∈ slots ↔ FaultAt programs p slot e)
    (hreferences : ∀ use distance, .reference use distance ∈ xs ↔
      (p.node? programs).bind Node.reference? = some use ∧
        ∀ d, distance = some d ↔ NearestAt programs p use.name.lexeme d) :
    Covers programs p (p.below 0) xs where
  upto := .inr (Place.before_below p 0)
  faults := by
    refine ⟨slots.map fun s => ⟨p, s.1, s.2⟩, ?_, ?_, ?_⟩
    · rw [hfaults, List.map_map]
      rfl
    · exact List.pairwise_map.2 (hsorted.imp fun hlt => .inr ⟨rfl, hlt⟩)
    · rintro ⟨place, slot, e⟩
      rw [List.mem_map, Place.between_below_zero]
      constructor
      · rintro ⟨s, hs, heq⟩
        cases heq
        exact ⟨(hmem _ _).1 hs, rfl⟩
      · rintro ⟨hfault, rfl⟩
        exact ⟨(slot, e), (hmem _ _).2 hfault, rfl⟩
  references := by
    intro use distance
    simp only [hreferences, Place.between_below_zero, exists_eq_left]

end Covers

/-! ## Single nodes -/

/-- A node at which nothing is found. -/
def Node.Silent : Node → Prop
  | .expression (.read _ _) => False
  | .expression (.assign _ _ _) => False
  | .expression (.function _ _ _) => False
  | .statement (.var _ _) => False
  | .statement (.function _ _ _) => False
  | .statement (.return _ _) => False
  | _ => True

theorem covers_silent (hn : p.node? programs = some n) (hs : n.Silent) :
    Covers programs p (p.below 0) [] := by
  refine .own [] rfl .nil (fun slot e => ?_) fun use distance => ?_
  · refine iff_of_false List.not_mem_nil fun h => ?_
    rcases (faultAt_iff hn).1 h with
      ⟨-, _, hd, -⟩ | ⟨_, _, _, hf, -⟩ | ⟨-, _, _, rfl, -⟩ | ⟨-, _, _, rfl, -⟩
    · unfold Node.declared? at hd
      split at hd
      · exact hs
      · exact hs
      · cases hd
    · unfold Node.function? at hf
      split at hf
      · exact hs
      · exact hs
      · cases hf
    · exact hs
    · exact hs
  · refine iff_of_false List.not_mem_nil ?_
    rintro ⟨hr, -⟩
    rw [hn] at hr
    change n.reference? = _ at hr
    unfold Node.reference? at hr
    split at hr
    · exact hs
    · exact hs
    · cases hr

/-- The finding for a reference, given what its distance means. -/
theorem reference_iff {use use' : Reference} {distance distance' : Option Nat}
    (h : ∀ d, distance = some d ↔ NearestAt programs p use.name.lexeme d) :
    Finding.reference use' distance' = .reference use distance ↔ some use = some use' ∧
      ∀ d, distance' = some d ↔ NearestAt programs p use'.name.lexeme d := by
  constructor
  · intro heq
    cases heq
    exact ⟨rfl, h⟩
  · rintro ⟨huse, hdistance⟩
    cases huse
    have heq : distance' = distance := Option.ext fun d => (hdistance d).trans (h d).symm
    rw [heq]

/-- An assignment is a reference, and no fault. -/
theorem covers_assign {id : NodeId} {name : Token} {value : Expr}
    (hn : p.node? programs = some (.expression (.assign id name value)))
    (h : Mirrors programs (p.enclosing programs) p scopes) :
    Covers programs p (p.below 0) [.reference ⟨id, name, true⟩ (scopes.distance? name.lexeme)] := by
  refine .own [] rfl .nil (fun slot e => ?_) fun use distance => ?_
  · refine iff_of_false List.not_mem_nil fun h => ?_
    rcases (faultAt_iff hn).1 h with
      ⟨-, _, hd, -⟩ | ⟨_, _, _, hf, -⟩ | ⟨-, _, _, hr, -⟩ | ⟨-, _, _, hr, -⟩
    · cases hd
    · cases hf
    · cases hr
    · cases hr
  · rw [List.mem_singleton, reference_iff fun d => h.distance?_eq_some_iff, hn]
    rfl

/-- At most one fault, in a given slot. -/
theorem mem_slot {c : Prop} [Decidable c] {k : Nat} {e e' : TokenError} :
    (slot, e') ∈ (if c then [(k, e)] else []) ↔ c ∧ slot = k ∧ e' = e := by
  by_cases hc : c
  · rw [if_pos hc, List.mem_singleton, Prod.mk.injEq, and_iff_right hc]
  · rw [if_neg hc]
    exact iff_of_false List.not_mem_nil fun h => hc h.1

theorem pairwise_slot {c : Prop} [Decidable c] {k : Nat} {e : TokenError} :
    (if c then [(k, e)] else []).Pairwise fun x y => x.1 < y.1 := by
  by_cases hc : c
  · rw [if_pos hc]
    exact List.pairwise_singleton _ _
  · rw [if_neg hc]
    exact .nil

section

open Classical

/-- A variable that is read is a reference, and a fault in its own initializer. -/
theorem covers_read {id : NodeId} {name : Token}
    (hn : p.node? programs = some (.expression (.read id name)))
    (h : Mirrors programs (p.enclosing programs) p scopes)
    (hu : scopes.ready? 0 name.lexeme = some false ↔ InOwnInitializer programs p name.lexeme) :
    Covers programs p (p.below 0) (scopes.readFaults name ++
      [.reference ⟨id, name, false⟩ (scopes.distance? name.lexeme)]) := by
  have hfaults : scopes.readFaults name = if InOwnInitializer programs p name.lexeme then
      [.fault ⟨name, .readInOwnInitializer name.lexeme⟩] else [] := by
    simp only [← hu]
    cases scopes with
    | nil => rfl
    | cons s rest => rfl
  rw [hfaults]
  refine .own (if InOwnInitializer programs p name.lexeme then
    [(0, ⟨name, .readInOwnInitializer name.lexeme⟩)] else []) ?_ pairwise_slot (fun slot e => ?_)
    fun use distance => ?_
  · split
    · rfl
    · rfl
  · rw [mem_slot]
    constructor
    · rintro ⟨hinit, rfl, rfl⟩
      exact .initializer hn hinit
    · intro h
      rcases (faultAt_iff hn).1 h with
        ⟨-, _, hd, -⟩ | ⟨_, _, _, hf, -⟩ | ⟨hslot, _, _, hr, hinit, he⟩ | ⟨-, _, _, hr, -⟩
      · cases hd
      · cases hf
      · cases hr
        exact ⟨hinit, hslot, he⟩
      · cases hr
  · have hmem : Finding.reference use distance ∈ (if InOwnInitializer programs p name.lexeme then
        [Finding.fault ⟨name, .readInOwnInitializer name.lexeme⟩] else []) ++
          [.reference ⟨id, name, false⟩ (scopes.distance? name.lexeme)] ↔
        Finding.reference use distance =
          .reference ⟨id, name, false⟩ (scopes.distance? name.lexeme) := by
      split
      · simp
      · simp
    rw [hmem, reference_iff fun d => h.distance?_eq_some_iff, hn]
    rfl

/-- A `return` is a fault outside all functions. -/
theorem covers_return {keyword : Token} {value : Option Expr} {inFunction : Bool}
    (hn : p.node? programs = some (.statement (.return keyword value)))
    (hf : inFunction = true ↔ InFunction programs p) :
    Covers programs p (p.below 0)
      (if inFunction then [] else [.fault ⟨keyword, .returnAtTopLevel⟩]) := by
  refine .own (if ¬ InFunction programs p then [(0, ⟨keyword, .returnAtTopLevel⟩)] else []) ?_
    pairwise_slot (fun slot e => ?_) fun use distance => ?_
  · simp only [← hf]
    cases inFunction
    · rfl
    · rfl
  · rw [mem_slot]
    constructor
    · rintro ⟨htop, rfl, rfl⟩
      exact .topLevel hn htop
    · intro h
      rcases (faultAt_iff hn).1 h with
        ⟨-, _, hd, -⟩ | ⟨_, _, _, hp, -⟩ | ⟨-, _, _, hr, -⟩ | ⟨hslot, _, _, hr, htop, he⟩
      · cases hd
      · cases hp
      · cases hr
      · cases hr
        exact ⟨htop, hslot, he⟩
  · refine iff_of_false (fun hmem => ?_) fun hr => ?_
    · split at hmem
      · cases hmem
      · cases List.mem_singleton.1 hmem
    · rw [hn] at hr
      cases hr.1

/-! ## Declarations and functions -/

theorem declarationFaults_eq (h : Mirrors programs (p.enclosing programs) p scopes) (name : Token) :
    scopes.declarationFaults name = if Redeclared programs p name.lexeme then
      [.fault ⟨name, .alreadyDeclared name.lexeme⟩] else [] := by
  unfold Redeclared
  generalize p.enclosing programs = places at h
  cases h with
  | nil =>
    rw [if_neg]
    · rfl
    · rintro ⟨scope, hscope, -⟩
      cases hscope
  | @cons place scope places rest hhead _ =>
    have hiff : (∃ scope, (place :: places).head? = some scope ∧
        DeclaredIn programs scope name.lexeme p) ↔ scope.declares name.lexeme = true := by
      rw [hhead]
      constructor
      · rintro ⟨other, hother, hdeclared⟩
        obtain rfl : place = other := Option.some.inj hother
        exact hdeclared
      · exact fun hdeclared => ⟨place, rfl, hdeclared⟩
    simp only [hiff]
    rfl

/-- What comes before a later parameter: the first one, and what comes before it in the rest. -/
theorem declared_before_succ (s : Scope) (param : Token) (params : List Token) (i : Nat)
    (x : String) :
    (s.declares x = true ∨ x ∈ ((param :: params).take (i + 1)).map (·.lexeme)) ↔
      ((s.declare param.lexeme).define param.lexeme).declares x = true ∨
        x ∈ (params.take i).map (·.lexeme) := by
  rw [List.take_succ_cons, List.map_cons, List.mem_cons, Scope.declares_bind]
  exact or_left_comm.trans or_assoc.symm

/-- The faults of parameters, in slots from `first` on: each parameter whose name the scope had got, or
an earlier parameter has. -/
theorem exists_slots_parameters (s : Scope) (rest : Scopes) (params : List Token) (first : Nat) :
    ∃ slots : List (Nat × TokenError),
      resolutionFaults (Scopes.parameters (s :: rest) params).1 = slots.map (·.2) ∧
        slots.Pairwise (fun x y => x.1 < y.1) ∧
        ∀ slot e, (slot, e) ∈ slots ↔ ∃ i param, slot = first + i ∧ params[i]? = some param ∧
          (s.declares param.lexeme = true ∨ param.lexeme ∈ (params.take i).map (·.lexeme)) ∧
          e = ⟨param, .alreadyDeclared param.lexeme⟩ := by
  induction params generalizing s first with
  | nil =>
    refine ⟨[], rfl, .nil, fun slot e => iff_of_false List.not_mem_nil ?_⟩
    rintro ⟨i, param, -, hparam, -⟩
    cases hparam
  | cons param params ih =>
    obtain ⟨slots, heq, hsorted, hmem⟩ :=
      ih ((s.declare param.lexeme).define param.lexeme) (first + 1)
    refine ⟨(if s.declares param.lexeme = true then
      [(first, ⟨param, .alreadyDeclared param.lexeme⟩)] else []) ++ slots, ?_, ?_, fun slot e => ?_⟩
    · have hstep : Scopes.parameters (s :: rest) (param :: params) =
          (Scopes.declarationFaults (s :: rest) param ++ (Scopes.parameters
            ((s.declare param.lexeme).define param.lexeme :: rest) params).1,
          (Scopes.parameters ((s.declare param.lexeme).define param.lexeme :: rest) params).2) := rfl
      rw [hstep, resolutionFaults, List.filterMap_append, List.map_append, ← heq]
      congr 1
      show (if s.declares param.lexeme then _ else _ : List Finding).filterMap _ = _
      split
      · rfl
      · rfl
    · refine List.pairwise_append.2 ⟨?_, hsorted, fun x hx y hy => ?_⟩
      · exact pairwise_slot
      · obtain ⟨i, other, hslot, -⟩ := (hmem y.1 y.2).1 hy
        have hx : x.1 = first := (mem_slot.1 hx).2.1
        omega
    · rw [List.mem_append, mem_slot, hmem]
      constructor
      · rintro (⟨hd, rfl, rfl⟩ | ⟨i, other, rfl, hother, hd, rfl⟩)
        · exact ⟨0, param, rfl, rfl, .inl hd, rfl⟩
        · exact ⟨i + 1, other, by omega, hother, (declared_before_succ s param params i _).2 hd, rfl⟩
      · rintro ⟨i, other, rfl, hother, hd, rfl⟩
        cases i with
        | zero =>
          obtain rfl : param = other := Option.some.inj hother
          exact .inl ⟨hd.resolve_right List.not_mem_nil, rfl, rfl⟩
        | succ i =>
          exact .inr
            ⟨i, other, by omega, hother, (declared_before_succ s param params i _).1 hd, rfl⟩

theorem not_reference_declarationFaults (name : Token) (use : Reference) (distance : Option Nat) :
    .reference use distance ∉ scopes.declarationFaults name := by
  intro h
  have hid : use.id ∈ (scopes.declarationFaults name).filterMap (·.id?) :=
    List.mem_filterMap.2 ⟨_, h, rfl⟩
  rw [ids_declarationFaults] at hid
  cases hid

theorem not_reference_parameters (params : List Token) (use : Reference) (distance : Option Nat) :
    .reference use distance ∉ (scopes.parameters params).1 := by
  intro h
  have hid : use.id ∈ (scopes.parameters params).1.filterMap (·.id?) :=
    List.mem_filterMap.2 ⟨_, h, rfl⟩
  rw [ids_parameters] at hid
  cases hid

/-- The findings at a node for what it declares and for its parameters. -/
def Node.declarationFindings (n : Node) (scopes outer : Scopes) : List Finding :=
  n.declared?.elim [] scopes.declarationFaults ++
    n.function?.elim [] fun function => (Scopes.parameters ({} :: outer) function.1).1

/-- A statement that declares a name, or a function, or both. -/
def Node.Declaring (n : Node) : Prop := n.declared?.isSome = true ∨ n.function?.isSome = true

theorem exists_slots_declared (n : Node)
    (h : Mirrors programs (p.enclosing programs) p scopes) :
    ∃ slots : List (Nat × TokenError),
      resolutionFaults (n.declared?.elim [] scopes.declarationFaults) = slots.map (·.2) ∧
        slots.Pairwise (fun x y => x.1 < y.1) ∧
        ∀ slot e, (slot, e) ∈ slots ↔ slot = 0 ∧ ∃ declared, n.declared? = some declared ∧
          Redeclared programs p declared.lexeme ∧
          e = ⟨declared, .alreadyDeclared declared.lexeme⟩ := by
  cases n.declared? with
  | none =>
    refine ⟨[], rfl, .nil, fun slot e => iff_of_false List.not_mem_nil ?_⟩
    rintro ⟨-, declared, hd, -⟩
    cases hd
  | some name =>
    refine ⟨if Redeclared programs p name.lexeme then
      [(0, ⟨name, .alreadyDeclared name.lexeme⟩)] else [], ?_, pairwise_slot, fun slot e => ?_⟩
    · rw [Option.elim_some, declarationFaults_eq h]
      split
      · rfl
      · rfl
    · rw [mem_slot]
      constructor
      · rintro ⟨hr, rfl, rfl⟩
        exact ⟨rfl, name, rfl, hr, rfl⟩
      · rintro ⟨rfl, declared, hd, hr, rfl⟩
        cases hd
        exact ⟨hr, rfl, rfl⟩

theorem exists_slots_function (n : Node) (outer : Scopes) :
    ∃ slots : List (Nat × TokenError),
      resolutionFaults (n.function?.elim [] fun function =>
        (Scopes.parameters ({} :: outer) function.1).1) = slots.map (·.2) ∧
        slots.Pairwise (fun x y => x.1 < y.1) ∧
        ∀ slot e, (slot, e) ∈ slots ↔ ∃ function i param, n.function? = some function ∧
          slot = i + 1 ∧ function.1[i]? = some param ∧
          param.lexeme ∈ (function.1.take i).map (·.lexeme) ∧
          e = ⟨param, .alreadyDeclared param.lexeme⟩ := by
  cases n.function? with
  | none =>
    refine ⟨[], rfl, .nil, fun slot e => iff_of_false List.not_mem_nil ?_⟩
    rintro ⟨function, i, param, hf, -⟩
    cases hf
  | some function =>
    obtain ⟨slots, heq, hsorted, hmem⟩ := exists_slots_parameters {} outer function.1 1
    refine ⟨slots, heq, hsorted, fun slot e => (hmem slot e).trans ?_⟩
    constructor
    · rintro ⟨i, param, rfl, hparam, hd, rfl⟩
      exact ⟨function, i, param, rfl, Nat.add_comm 1 i, hparam, hd.resolve_left Bool.false_ne_true,
        rfl⟩
    · rintro ⟨_, i, param, hf, rfl, hparam, hd, rfl⟩
      cases hf
      exact ⟨i, param, Nat.add_comm i 1, hparam, .inr hd, rfl⟩

/-- The name that a node declares comes before its parameters. -/
theorem covers_declaring (hn : p.node? programs = some n) (hd : n.Declaring)
    (h : Mirrors programs (p.enclosing programs) p scopes) (outer : Scopes) :
    Covers programs p (p.below 0) (n.declarationFindings scopes outer) := by
  obtain ⟨slots, heq, hsorted, hmem⟩ := exists_slots_declared n h
  obtain ⟨slots', heq', hsorted', hmem'⟩ := exists_slots_function n outer
  refine .own (slots ++ slots') ?_ ?_ (fun slot e => ?_) fun use distance => ?_
  · rw [List.map_append, ← heq, ← heq']
    exact List.filterMap_append
  · refine List.pairwise_append.2 ⟨hsorted, hsorted', fun x hx y hy => ?_⟩
    have hx := ((hmem x.1 x.2).1 hx).1
    obtain ⟨-, i, -, -, hy, -⟩ := (hmem' y.1 y.2).1 hy
    omega
  · rw [List.mem_append, hmem, hmem', faultAt_iff hn, ← or_assoc]
    refine (or_iff_left ?_).symm
    rintro (⟨-, _, _, rfl, -⟩ | ⟨-, _, _, rfl, -⟩)
    · exact absurd hd (by simp [Node.Declaring, Node.declared?, Node.function?])
    · exact absurd hd (by simp [Node.Declaring, Node.declared?, Node.function?])
  · refine iff_of_false (fun hmem => ?_) fun hr => ?_
    · rcases List.mem_append.1 hmem with hmem | hmem
      · cases hdeclared : n.declared? with
        | none =>
          rw [hdeclared] at hmem
          cases hmem
        | some name =>
          rw [hdeclared] at hmem
          exact not_reference_declarationFaults name use distance hmem
      · cases hf : n.function? with
        | none =>
          rw [hf] at hmem
          cases hmem
        | some function =>
          rw [hf] at hmem
          exact not_reference_parameters function.1 use distance hmem
    · rw [hn] at hr
      have hr : n.reference? = some use := hr.1
      unfold Node.reference? at hr
      split at hr
      · exact absurd hd (by simp [Node.Declaring, Node.declared?, Node.function?])
      · exact absurd hd (by simp [Node.Declaring, Node.declared?, Node.function?])
      · cases hr

end

end LoxLang
