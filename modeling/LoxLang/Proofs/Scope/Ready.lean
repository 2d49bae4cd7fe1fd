import LoxLang.Proofs.Scope.References
import LoxLang.Proofs.Syntax.Place
import LoxLang.Proofs.Syntax.Proper

/-!
Names that are not ready.

A name is declared before its initializer is resolved, and ready behind it.  So a name that is not
ready in a scope around a place is the name of a declaration in that scope whose initializer has the
place in it (`Unready`).
-/

namespace LoxLang

/-! ## The scopes behind a statement -/

mutual

/-- A proper statement that declares nothing leaves the scopes as they are. -/
theorem Stmt.scopes_of_plain (s : Stmt) (hp : s.Proper) (h : s.Plain) (inFunction : Bool)
    (scopes : Scopes) : (s.findings inFunction scopes).2 = scopes := by
  cases s with
  | var name initializer => exact h.elim
  | function name params body => exact h.elim
  | ifElse condition thenBranch elseBranch =>
    have hthen := thenBranch.scopes_of_plain hp.2.1.1 hp.2.1.2 inFunction scopes
    show (Stmt.findingsOption inFunction (thenBranch.findings inFunction scopes).2 elseBranch).2 =
      scopes
    rw [hthen]
    exact Stmt.scopes_of_branch elseBranch hp.2.2 inFunction scopes
  | «while» condition body => exact body.scopes_of_plain hp.2.1 hp.2.2 inFunction scopes
  | expression value => rfl
  | print keyword value => rfl
  | block body => rfl
  | «return» keyword value => rfl
termination_by structural s

theorem Stmt.scopes_of_branch (o : Option Stmt) (hp : Stmt.ProperBranch o) (inFunction : Bool)
    (scopes : Scopes) : (Stmt.findingsOption inFunction scopes o).2 = scopes := by
  cases o with
  | none => rfl
  | some s => exact s.scopes_of_plain hp.1 hp.2 inFunction scopes
termination_by structural o

end

namespace Scopes

/-- The scopes with a name declared and ready. -/
def bind (scopes : Scopes) (name : Token) : Scopes := (scopes.declare name).define name

/-- Whether a name is ready in the scope that is so many steps outward; nothing if that scope does
not declare it. -/
def ready? (scopes : Scopes) (d : Nat) (name : String) : Option Bool :=
  (scopes[d]?).bind fun s => s.ready? name

end Scopes

/-- Behind a proper statement the name that it declares is ready, if it declares one. -/
theorem Stmt.scopes_after (s : Stmt) (hp : s.Proper) (inFunction : Bool) (scopes : Scopes) :
    (s.findings inFunction scopes).2 = scopes ∨
      ∃ name, (s.findings inFunction scopes).2 = scopes.bind name := by
  by_cases hplain : s.Plain
  · exact .inl (s.scopes_of_plain hp hplain inFunction scopes)
  · cases s with
    | var name initializer => exact .inr ⟨name, rfl⟩
    | function name params body => exact .inr ⟨name, rfl⟩
    | _ => exact absurd trivial hplain

/-- At top level there are no scopes behind a statement. -/
theorem Stmt.scopes_top (s : Stmt) (hp : s.Proper) (inFunction : Bool) :
    (s.findings inFunction []).2 = [] := by
  rcases s.scopes_after hp inFunction [] with heq | ⟨name, heq⟩
  · exact heq
  · exact heq

namespace Scopes

variable {scopes : Scopes} {d : Nat} {name : String}

/-- A reference is at the distance of a scope that declares its name. -/
theorem ready?_of_distance? (h : scopes.distance? name = some d) :
    d < scopes.length ∧ ∃ b, scopes.ready? d name = some b := by
  obtain ⟨hlt, hdeclares, -⟩ := List.findIdx?_eq_some_iff_getElem.1 h
  refine ⟨hlt, Option.isSome_iff_exists.1 ?_⟩
  rw [ready?, List.getElem?_eq_getElem hlt]
  exact hdeclares

/-- Only a name that is being declared becomes unready. -/
theorem ready?_declare {declared : Token} (h : (scopes.declare declared).ready? d name = some false) :
    (d = 0 ∧ declared.lexeme = name) ∨ scopes.ready? d name = some false := by
  cases scopes with
  | nil => exact .inr h
  | cons s rest =>
    cases d with
    | succ d => exact .inr h
    | zero =>
      have hready : (s.declare declared.lexeme).ready? name = some false := h
      rw [Scope.ready?_declare] at hready
      by_cases hname : name = declared.lexeme
      · exact .inl ⟨rfl, hname.symm⟩
      · rw [if_neg hname] at hready
        exact .inr hready

theorem ready?_bind_cons (s : Scope) (rest : Scopes) (bound : Token) :
    Scopes.ready? (Scopes.bind (s :: rest) bound) 0 name =
      if name = bound.lexeme then some true else s.ready? name := by
  show ((s.declare bound.lexeme).define bound.lexeme).ready? name = _
  rw [Scope.ready?_define, Scope.ready?_declare]
  by_cases hname : name = bound.lexeme
  · rw [if_pos hname, if_pos hname]
  · rw [if_neg hname, if_neg hname, if_neg hname]

theorem ready?_bind_false {bound : Token} (h : (scopes.bind bound).ready? d name = some false) :
    scopes.ready? d name = some false := by
  cases scopes with
  | nil => exact h
  | cons s rest =>
    cases d with
    | succ d => exact h
    | zero =>
      rw [ready?_bind_cons] at h
      by_cases hname : name = bound.lexeme
      · rw [if_pos hname] at h
        cases h
      · rwa [if_neg hname] at h

/-- Parameters change the innermost scope only, in which they become ready. -/
theorem parameters_cons (s : Scope) (rest : Scopes) (params : List Token) :
    ∃ s', (Scopes.parameters (s :: rest) params).2 = s' :: rest ∧
      ∀ name, s'.ready? name =
        if name ∈ params.map (·.lexeme) then some true else s.ready? name := by
  induction params generalizing s with
  | nil => exact ⟨s, rfl, fun name => by simp⟩
  | cons param params ih =>
    obtain ⟨s', heq, hready⟩ := ih ((s.declare param.lexeme).define param.lexeme)
    refine ⟨s', heq, fun name => ?_⟩
    rw [hready name, show ((s.declare param.lexeme).define param.lexeme).ready? name = _ from
      ready?_bind_cons s rest param, List.map_cons]
    by_cases hrest : name ∈ params.map (·.lexeme)
    · rw [if_pos hrest, if_pos (List.mem_cons_of_mem _ hrest)]
    · by_cases hname : name = param.lexeme
      · rw [if_neg hrest, if_pos hname, if_pos (hname ▸ List.mem_cons_self)]
      · rw [if_neg hrest, if_neg hname, if_neg fun hmem => (List.mem_cons.1 hmem).elim hname hrest]

end Scopes

/-! ## Initializers -/

section

variable (programs : List (List Stmt))

/-- The place is within the initializer of a declaration of the name, in the scope that is so many
steps outward. -/
def Initializing (p : Place) (d : Nat) (name : String) : Prop :=
  ∃ q ∈ p.above, ∃ declared initializer,
    q.node? programs = some (.statement (.var declared initializer)) ∧ declared.lexeme = name ∧
      q.enclosing programs = (p.enclosing programs).drop d

/-- The names that are not ready around a place are those whose initializers it is within. -/
def Unready (p : Place) (scopes : Scopes) : Prop :=
  ∀ d name, scopes.ready? d name = some false → Initializing programs p d name

end

variable {programs : List (List Stmt)} {p : Place} {scopes : Scopes} {node : Node}

theorem unready_nil (programs : List (List Stmt)) (p : Place) : Unready programs p [] :=
  fun _ _ h => nomatch h

/-- Around a child of a node that opens no scope. -/
theorem Unready.below (h : Unready programs p scopes) (hn : p.node? programs = some node)
    (ho : node.opensScope = false) (i : Nat) : Unready programs (p.below i) scopes := by
  intro d name hready
  obtain ⟨q, hq, declared, initializer, hnode, hname, hscopes⟩ := h d name hready
  refine ⟨q, List.mem_cons_of_mem _ hq, declared, initializer, hnode, hname, ?_⟩
  rw [hscopes, Place.enclosing_below hn ho]

/-- Around a child of a block or a function, whose own names are all ready. -/
theorem Unready.enter (h : Unready programs p scopes) (hn : p.node? programs = some node)
    (ho : node.opensScope = true) {scope : Scope}
    (hscope : ∀ name, scope.ready? name ≠ some false) (i : Nat) :
    Unready programs (p.below i) (scope :: scopes) := by
  intro d name hready
  cases d with
  | zero => exact absurd hready (hscope name)
  | succ d =>
    obtain ⟨q, hq, declared, initializer, hnode, hname, hscopes⟩ := h d name hready
    refine ⟨q, List.mem_cons_of_mem _ hq, declared, initializer, hnode, hname, ?_⟩
    rw [hscopes, Place.enclosing_below_of_opens hn ho, List.drop_succ_cons]

/-- Around the initializer of a declaration. -/
theorem Unready.declare (h : Unready programs p scopes) {declared : Token}
    {initializer : Option Expr} (hn : p.node? programs = some (.statement (.var declared initializer)))
    (i : Nat) : Unready programs (p.below i) (scopes.declare declared) := by
  intro d name hready
  rcases Scopes.ready?_declare hready with ⟨rfl, hname⟩ | hold
  · refine ⟨p, List.mem_cons_self, declared, initializer, hn, hname, ?_⟩
    rw [List.drop_zero, Place.enclosing_below hn rfl]
  · exact h.below hn rfl i d name hold

theorem Unready.bind (h : Unready programs p scopes) (name : Token) :
    Unready programs p (scopes.bind name) :=
  fun d other hready => h d other (Scopes.ready?_bind_false hready)

/-- Around the statements behind a statement. -/
theorem Unready.after (h : Unready programs p scopes) {s : Stmt} (hp : s.Proper)
    (inFunction : Bool) : Unready programs p (s.findings inFunction scopes).2 := by
  rcases s.scopes_after hp inFunction scopes with heq | ⟨name, heq⟩
  · rwa [heq]
  · rw [heq]
    exact h.bind name

/-- Around the body of a function. -/
theorem Unready.parameters (h : Unready programs p scopes) (hn : p.node? programs = some node)
    (ho : node.opensScope = true) (params : List Token) (i : Nat) :
    Unready programs (p.below i) (Scopes.parameters ({} :: scopes) params).2 := by
  obtain ⟨scope, heq, hready⟩ := Scopes.parameters_cons {} scopes params
  rw [heq]
  refine h.enter hn ho (fun name hfalse => ?_) i
  rw [hready] at hfalse
  split at hfalse
  · cases hfalse
  · cases hfalse

/-- More programs change nothing. -/
theorem Unready.append (h : Unready programs p scopes) (hp : p.program < programs.length)
    (more : List (List Stmt)) : Unready (programs ++ more) p scopes := by
  intro d name hready
  obtain ⟨q, hq, declared, initializer, hnode, hname, hscopes⟩ := h d name hready
  have hprogram : q.program < programs.length := by
    obtain ⟨path, -, rfl⟩ := List.mem_map.1 hq
    exact hp
  refine ⟨q, hq, declared, initializer, Place.node?_append hnode more, hname, ?_⟩
  rw [Place.enclosing_append hprogram, Place.enclosing_append hp, hscopes]

end LoxLang
