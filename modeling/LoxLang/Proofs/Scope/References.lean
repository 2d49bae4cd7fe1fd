import LoxLang.Proofs.Syntax.Relabel
import LoxLang.Scope.Resolution

/-!
The table of distances holds what the resolution found.

The references among the findings of a program are its reads and assignments, each with its own
number.  So if a table is extended by them, and had no entry for any of these numbers, it gives each
reference the distance at which it was found, and other numbers what they had (`recorded_extend`).
-/

namespace LoxLang

/-- The number of a reference. -/
def Finding.id? : Finding → Option NodeId
  | .reference use _ => some use.id
  | .fault _ => none

theorem ids_declarationFaults (scopes : Scopes) (name : Token) :
    (scopes.declarationFaults name).filterMap (·.id?) = [] := by
  unfold Scopes.declarationFaults
  split
  · split
    · rfl
    · rfl
  · rfl

theorem ids_readFaults (scopes : Scopes) (name : Token) :
    (scopes.readFaults name).filterMap (·.id?) = [] := by
  unfold Scopes.readFaults
  split
  · split
    · rfl
    · rfl
  · rfl

theorem ids_parameters (scopes : Scopes) (params : List Token) :
    (scopes.parameters params).1.filterMap (·.id?) = [] := by
  induction params generalizing scopes with
  | nil => rfl
  | cons name names ih =>
    show (scopes.declarationFaults name ++
      (((scopes.declare name).define name).parameters names).1).filterMap (·.id?) = []
    rw [List.filterMap_append, ids_declarationFaults, ih, List.append_nil]

mutual

theorem Expr.ids_findings (e : Expr) (scopes : Scopes) :
    (e.findings scopes).filterMap (·.id?) = e.ids := by
  cases e with
  | constant value => rfl
  | grouping inner => exact inner.ids_findings scopes
  | unary operator operand => exact operand.ids_findings scopes
  | binary left operator right =>
    simp only [Expr.findings, Expr.ids, List.filterMap_append, left.ids_findings,
      right.ids_findings]
  | logical left operator right =>
    simp only [Expr.findings, Expr.ids, List.filterMap_append, left.ids_findings,
      right.ids_findings]
  | read id name =>
    simp only [Expr.findings, Expr.ids, List.filterMap_append, ids_readFaults]
    rfl
  | assign id name value =>
    simp only [Expr.findings, Expr.ids, List.filterMap_append, value.ids_findings]
    rfl
  | call callee paren arguments =>
    simp only [Expr.findings, Expr.ids, List.filterMap_append, callee.ids_findings,
      Expr.ids_findingsAll arguments]
  | function keyword params body =>
    simp only [Expr.findings, Expr.ids, List.filterMap_append, ids_parameters, List.nil_append,
      Stmt.ids_findingsAll body]
termination_by structural e

theorem Expr.ids_findingsAll (es : List Expr) (scopes : Scopes) :
    (Expr.findingsAll scopes es).filterMap (·.id?) = Expr.idsAll es := by
  cases es with
  | nil => rfl
  | cons e es =>
    simp only [Expr.findingsAll, Expr.idsAll, List.filterMap_append, e.ids_findings,
      Expr.ids_findingsAll es]
termination_by structural es

theorem Expr.ids_findingsOption (o : Option Expr) (scopes : Scopes) :
    (Expr.findingsOption scopes o).filterMap (·.id?) = Expr.idsOption o := by
  cases o with
  | none => rfl
  | some e => exact e.ids_findings scopes
termination_by structural o

theorem Stmt.ids_findings (s : Stmt) (inFunction : Bool) (scopes : Scopes) :
    (s.findings inFunction scopes).1.filterMap (·.id?) = s.ids := by
  cases s with
  | expression value => exact value.ids_findings scopes
  | print keyword value => exact value.ids_findings scopes
  | var name initializer =>
    simp only [Stmt.findings, Stmt.ids, List.filterMap_append, ids_declarationFaults,
      List.nil_append, Expr.ids_findingsOption initializer]
  | block body => exact Stmt.ids_findingsAll body _ _
  | ifElse condition thenBranch elseBranch =>
    simp only [Stmt.findings, Stmt.ids, List.filterMap_append, condition.ids_findings,
      thenBranch.ids_findings, Stmt.ids_findingsOption elseBranch]
  | «while» condition body =>
    simp only [Stmt.findings, Stmt.ids, List.filterMap_append, condition.ids_findings,
      body.ids_findings]
  | function name params body =>
    simp only [Stmt.findings, Stmt.ids, List.filterMap_append, ids_declarationFaults,
      List.nil_append, ids_parameters, Stmt.ids_findingsAll body]
  | «return» keyword value =>
    simp only [Stmt.findings, Stmt.ids, List.filterMap_append, Expr.ids_findingsOption value]
    cases inFunction
    · rfl
    · rfl
termination_by structural s

theorem Stmt.ids_findingsAll (ss : List Stmt) (inFunction : Bool) (scopes : Scopes) :
    (Stmt.findingsAll inFunction scopes ss).1.filterMap (·.id?) = Stmt.idsAll ss := by
  cases ss with
  | nil => rfl
  | cons s ss =>
    simp only [Stmt.findingsAll, Stmt.idsAll, List.filterMap_append, s.ids_findings,
      Stmt.ids_findingsAll ss]
termination_by structural ss

theorem Stmt.ids_findingsOption (o : Option Stmt) (inFunction : Bool) (scopes : Scopes) :
    (Stmt.findingsOption inFunction scopes o).1.filterMap (·.id?) = Stmt.idsOption o := by
  cases o with
  | none => rfl
  | some s => exact s.ids_findings inFunction scopes
termination_by structural o

end

/-! ## The table -/

/-- A reference has its distance in the table and a number below the bound. -/
def Finding.Recorded (table : Locals) (bound : NodeId) : Finding → Prop
  | .reference use distance => use.id < bound ∧ table[use.id]? = distance
  | .fault _ => True

/-- What holds of the references of a part of a program once they are in the table. -/
abbrev Recorded (table : Locals) (bound : NodeId) (findings : List Finding) : Prop :=
  ∀ f ∈ findings, f.Recorded table bound

/-- The finding is no fault, and a reference has its distance in the table and a number below the
bound. -/
def Finding.Settled (table : Locals) (bound : NodeId) : Finding → Prop
  | .reference use distance => use.id < bound ∧ table[use.id]? = distance
  | .fault _ => False

/-- The findings of a part of a program that is executed. -/
abbrev Settled (table : Locals) (bound : NodeId) (findings : List Finding) : Prop :=
  ∀ f ∈ findings, f.Settled table bound

section

variable {table : Locals} {bound : NodeId} {xs ys : List Finding}

theorem Settled.left (h : Settled table bound (xs ++ ys)) : Settled table bound xs :=
  fun f hf => h f (List.mem_append_left _ hf)

theorem Settled.right (h : Settled table bound (xs ++ ys)) : Settled table bound ys :=
  fun f hf => h f (List.mem_append_right _ hf)

theorem Recorded.left (h : Recorded table bound (xs ++ ys)) : Recorded table bound xs :=
  fun f hf => h f (List.mem_append_left _ hf)

theorem Recorded.right (h : Recorded table bound (xs ++ ys)) : Recorded table bound ys :=
  fun f hf => h f (List.mem_append_right _ hf)

theorem Recorded.reference {use : Reference} {distance : Option Nat}
    (h : Recorded table bound [.reference use distance]) :
    use.id < bound ∧ table[use.id]? = distance :=
  h _ (List.mem_singleton.2 rfl)

theorem Settled.reference {use : Reference} {distance : Option Nat}
    (h : Settled table bound [.reference use distance]) : table[use.id]? = distance :=
  (h _ (List.mem_singleton.2 rfl)).2

end

theorem Settled.mono {table table' : Locals} {bound bound' : NodeId} {findings : List Finding}
    (h : Settled table bound findings) (hbound : bound ≤ bound')
    (htable : ∀ id < bound, table'[id]? = table[id]?) : Settled table' bound' findings := by
  intro f hf
  have hs := h f hf
  cases f with
  | reference use distance => exact ⟨Nat.lt_of_lt_of_le hs.1 hbound, (htable _ hs.1).trans hs.2⟩
  | fault e => exact hs

theorem Recorded.mono {table table' : Locals} {bound bound' : NodeId} {findings : List Finding}
    (h : Recorded table bound findings) (hbound : bound ≤ bound')
    (htable : ∀ id < bound, table'[id]? = table[id]?) : Recorded table' bound' findings := by
  intro f hf
  have hs := h f hf
  cases f with
  | reference use distance => exact ⟨Nat.lt_of_lt_of_le hs.1 hbound, (htable _ hs.1).trans hs.2⟩
  | fault e => trivial

theorem getElem?_extend_of_not_mem {table : Locals} {findings : List Finding} {id : NodeId}
    (h : id ∉ findings.filterMap (·.id?)) : (table.extend findings)[id]? = table[id]? := by
  induction findings generalizing table with
  | nil => rfl
  | cons f findings ih =>
    cases f with
    | fault e => exact ih h
    | reference use distance =>
      have hne : use.id ≠ id := fun he => h (he ▸ List.mem_cons_self)
      have hrest : id ∉ findings.filterMap (·.id?) := fun hm => h (List.mem_cons_of_mem _ hm)
      cases distance with
      | none => exact ih hrest
      | some d =>
        have hstep : (table.insert use.id d)[id]? = table[id]? := by
          rw [Std.TreeMap.getElem?_insert, if_neg (by simpa using hne)]
        exact (ih hrest).trans hstep

theorem getElem?_extend_of_mem {table : Locals} {findings : List Finding} {use : Reference}
    {distance : Option Nat} (hnodup : (findings.filterMap (·.id?)).Nodup)
    (hnew : table[use.id]? = none) (h : .reference use distance ∈ findings) :
    (table.extend findings)[use.id]? = distance := by
  induction findings generalizing table with
  | nil => cases h
  | cons f findings ih =>
    rcases List.mem_cons.1 h with rfl | hmem
    · have hrest : use.id ∉ findings.filterMap (·.id?) := (List.nodup_cons.1 hnodup).1
      cases distance with
      | none => exact (getElem?_extend_of_not_mem hrest).trans hnew
      | some d =>
        have hstep : (table.insert use.id d)[use.id]? = some d := Std.TreeMap.getElem?_insert_self
        exact (getElem?_extend_of_not_mem hrest).trans hstep
    · cases f with
      | fault e => exact ih hnodup hnew hmem
      | reference other distance' =>
        obtain ⟨hother, hrest⟩ := List.nodup_cons.1 hnodup
        have hid : use.id ∈ findings.filterMap (·.id?) := List.mem_filterMap.2 ⟨_, hmem, rfl⟩
        have hne : other.id ≠ use.id := fun he => hother (he ▸ hid)
        cases distance' with
        | none => exact ih hrest hnew hmem
        | some d =>
          have hstep : (table.insert other.id d)[use.id]? = none := by
            rw [Std.TreeMap.getElem?_insert, if_neg (by simpa using hne), hnew]
          exact ih hrest hstep hmem

/-- What a program adds to the table records its own references, and nothing else changes. -/
theorem recorded_extend {table : Locals} {program : List Stmt} {low high : NodeId}
    (htable : ∀ id, low ≤ id → table[id]? = none) (hnodup : (Stmt.idsAll program).Nodup)
    (hids : ∀ id ∈ Stmt.idsAll program, low ≤ id ∧ id < high) :
    Recorded (table.extend (findingsIn program)) high (findingsIn program) ∧
      (∀ id < low, (table.extend (findingsIn program))[id]? = table[id]?) ∧
      ∀ id, high ≤ id → low ≤ id → (table.extend (findingsIn program))[id]? = none := by
  have hfound : (findingsIn program).filterMap (·.id?) = Stmt.idsAll program :=
    Stmt.ids_findingsAll program false []
  refine ⟨?_, ?_, ?_⟩
  · intro f hf
    cases f with
    | reference use distance =>
      have hmem : use.id ∈ Stmt.idsAll program :=
        hfound ▸ List.mem_filterMap.2 ⟨_, hf, rfl⟩
      obtain ⟨hlow, hhigh⟩ := hids _ hmem
      exact ⟨hhigh, getElem?_extend_of_mem (hfound ▸ hnodup) (htable _ hlow) hf⟩
    | fault e => trivial
  · intro id hlt
    apply getElem?_extend_of_not_mem
    rw [hfound]
    intro hmem
    exact absurd (hids _ hmem).1 (Nat.not_le_of_lt hlt)
  · intro id hhigh hlow
    rw [← htable id hlow]
    apply getElem?_extend_of_not_mem
    rw [hfound]
    intro hmem
    exact absurd (hids _ hmem).2 (Nat.not_lt_of_le hhigh)

/-- Findings without faults are settled once their references are recorded. -/
theorem Recorded.settled {table : Locals} {bound : NodeId} {findings : List Finding}
    (h : Recorded table bound findings) (hfaults : resolutionFaults findings = []) :
    Settled table bound findings := by
  intro f hf
  cases f with
  | reference use distance => exact h _ hf
  | fault e =>
    have hmem : e ∈ resolutionFaults findings := List.mem_filterMap.2 ⟨_, hf, rfl⟩
    rw [hfaults] at hmem
    cases hmem

end LoxLang
