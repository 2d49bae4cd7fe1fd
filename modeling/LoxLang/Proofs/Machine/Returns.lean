import LoxLang.Proofs.Machine.Moments
import LoxLang.Proofs.Scope.References

/-!
Where a `return` goes.

The resolver tells a `return` at top level from one in a function, and nothing does so at run time.  A
statement without a `return` outside of functions never ends with a value on its way
(`Ends.not_returned`).  A value on its way is handed from each activity to the one around it, which has
no part after that, until it is the value of a call (`Comes.returned`).
-/

namespace LoxLang

/-! ## Statements without a `return` -/

mutual

/-- There is no `return` in the statement but in the functions within it. -/
def Stmt.NoReturn : Stmt → Prop
  | .block body => Stmt.NoReturnAll body
  | .ifElse _ thenBranch elseBranch => thenBranch.NoReturn ∧ Stmt.NoReturnOption elseBranch
  | .while _ body => body.NoReturn
  | .return _ _ => False
  | _ => True
termination_by structural s => s

def Stmt.NoReturnAll : List Stmt → Prop
  | [] => True
  | s :: ss => s.NoReturn ∧ Stmt.NoReturnAll ss
termination_by structural ss => ss

def Stmt.NoReturnOption : Option Stmt → Prop
  | none => True
  | some s => s.NoReturn
termination_by structural s => s

end

theorem resolutionFaults_append_eq_nil {xs ys : List Finding} :
    resolutionFaults (xs ++ ys) = [] ↔ resolutionFaults xs = [] ∧ resolutionFaults ys = [] := by
  rw [resolutionFaults, List.filterMap_append, List.append_eq_nil_iff]
  exact Iff.rfl

mutual

/-- What the resolver accepts outside of functions has no `return`. -/
theorem Stmt.noReturn_of_findings (scopes : Scopes) :
    ∀ s : Stmt, resolutionFaults (s.findings false scopes).1 = [] → s.NoReturn
  | .expression _, _ => trivial
  | .print _ _, _ => trivial
  | .var _ _, _ => trivial
  | .block body, h => Stmt.noReturnAll_of_findings ({} :: scopes) body h
  | .ifElse _ thenBranch elseBranch, h => by
    have hbranches := (resolutionFaults_append_eq_nil.1 (resolutionFaults_append_eq_nil.1 h).2)
    exact ⟨thenBranch.noReturn_of_findings scopes hbranches.1,
      Stmt.noReturnOption_of_findings _ elseBranch hbranches.2⟩
  | .while _ body, h => body.noReturn_of_findings scopes (resolutionFaults_append_eq_nil.1 h).2
  | .function _ _ _, _ => trivial
  | .return _ _, h => nomatch (resolutionFaults_append_eq_nil.1 h).1
termination_by structural s => s

theorem Stmt.noReturnAll_of_findings (scopes : Scopes) :
    ∀ ss : List Stmt, resolutionFaults (Stmt.findingsAll false scopes ss).1 = [] →
      Stmt.NoReturnAll ss
  | [], _ => trivial
  | s :: ss, h =>
    ⟨s.noReturn_of_findings scopes (resolutionFaults_append_eq_nil.1 h).1,
      Stmt.noReturnAll_of_findings _ ss (resolutionFaults_append_eq_nil.1 h).2⟩
termination_by structural ss => ss

theorem Stmt.noReturnOption_of_findings (scopes : Scopes) :
    ∀ s : Option Stmt, resolutionFaults (Stmt.findingsOption false scopes s).1 = [] →
      Stmt.NoReturnOption s
  | none, _ => trivial
  | some s, h => s.noReturn_of_findings scopes h
termination_by structural s => s

end

theorem Stmt.NoReturnAll.mem {ss : List Stmt} (h : Stmt.NoReturnAll ss) {s : Stmt} (hs : s ∈ ss) :
    s.NoReturn := by
  induction ss with
  | nil => exact absurd hs List.not_mem_nil
  | cons t ss ih =>
    rcases List.mem_cons.1 hs with rfl | hs
    · exact h.1
    · exact ih h.2 hs

/-! ## Values on their way -/

def Completion.returned? : Completion → Option Value
  | .normal => none
  | .returned v => some v

namespace Activity

/-- The value that is on its way to a call when the activity ends so. -/
def returned? : (a : Activity) → a.Result → Option Value
  | execute _ => Completion.returned?
  | executeAll _ => Completion.returned?
  | loop _ _ => Completion.returned?
  | _ => fun _ => none

def NoReturn : Activity → Prop
  | execute s => s.NoReturn
  | executeAll ss => Stmt.NoReturnAll ss
  | loop _ body => body.NoReturn
  | _ => True

end Activity

variable {α : Type} {context : Context} {n : Nat} {a b c : Activity} {m m' m'' s : Machine}

namespace Course

/-- If no part ends with a value on its way, then the course does not; and the parts are such that none
does. -/
def Quiet (returned? : α → Option Value) : Course α → Prop
  | ends o => ∀ r s, o = .ok r s → returned? r = none
  | part a _ _ next => a.NoReturn ∧ ∀ r s, a.returned? r = none → (next r s).Quiet returned?

theorem quiet_ok {returned? : α → Option Value} {r : α} (h : returned? r = none) :
    (ends (.ok r s)).Quiet returned? := by
  rintro r' s' ⟨rfl, rfl⟩
  exact h

theorem Quiet.carry {returned? : α → Option Value} {run : (a : Activity) → Run a.Result}
    {c : Course α} (hc : c.Quiet returned?)
    (hrun : ∀ a m r s, a.NoReturn → run a m = .ok r s → a.returned? r = none) {r : α}
    (h : c.carry run = .ok r s) : returned? r = none := by
  induction c with
  | ends o => exact hc r s h
  | part a m leave next ih =>
    rw [Course.carry] at h
    cases ha : run a m with
    | ok v t =>
      rw [ha] at h
      exact ih v (leave t) (hc.2 v _ (hrun a m v t hc.1 ha)) h
    | error e t =>
      rw [ha] at h
      cases h
    | exhausted =>
      rw [ha] at h
      cases h

end Course

namespace Activity

open Course

theorem quiet_execute {st : Stmt} (h : st.NoReturn) (m : Machine) :
    ((execute st).course context m).Quiet Completion.returned? := by
  cases st with
  | expression value => exact ⟨trivial, fun _ _ _ => quiet_ok rfl⟩
  | print keyword value => exact ⟨trivial, fun _ _ _ => quiet_ok rfl⟩
  | var name initializer =>
    cases initializer with
    | none => exact quiet_ok rfl
    | some value => exact ⟨trivial, fun _ _ _ => quiet_ok rfl⟩
  | block body => exact ⟨h, fun _ _ hr => quiet_ok hr⟩
  | ifElse condition thenBranch elseBranch =>
    refine ⟨trivial, fun v s _ => ?_⟩
    dsimp only
    split
    · exact ⟨h.1, fun _ _ hr => quiet_ok hr⟩
    · cases elseBranch with
      | none => exact quiet_ok rfl
      | some branch => exact ⟨h.2, fun _ _ hr => quiet_ok hr⟩
  | «while» condition body => exact ⟨h, fun _ _ hr => quiet_ok hr⟩
  | function name params body => exact quiet_ok rfl
  | «return» keyword value => exact h.elim

theorem quiet_executeAll {ss : List Stmt} (h : Stmt.NoReturnAll ss) (m : Machine) :
    ((executeAll ss).course context m).Quiet Completion.returned? := by
  cases ss with
  | nil => exact quiet_ok rfl
  | cons st ss =>
    refine ⟨h.1, fun c s hc => ?_⟩
    cases c with
    | normal => exact ⟨h.2, fun _ _ hr => quiet_ok hr⟩
    | returned v => cases hc

theorem quiet_loop (condition : Expr) {body : Stmt} (h : body.NoReturn) (m : Machine) :
    ((loop condition body).course context m).Quiet Completion.returned? := by
  refine ⟨trivial, fun v s _ => ?_⟩
  dsimp only
  split
  · refine ⟨h, fun c s hc => ?_⟩
    cases c with
    | normal => exact ⟨h, fun _ _ hr => quiet_ok hr⟩
    | returned v => cases hc
  · exact quiet_ok rfl

/-- What has no `return` does not end with a value on its way. -/
theorem run_not_returned {r : a.Result} (ha : a.NoReturn) (h : a.run context n m = .ok r s) :
    a.returned? r = none := by
  induction n generalizing a m s with
  | zero =>
    rw [run_zero] at h
    cases h
  | succ n ih =>
    rw [run_succ] at h
    have hrun : ∀ (a : Activity) m r s, a.NoReturn → a.run context n m = .ok r s → a.returned? r = none :=
      fun _ _ _ _ => ih
    cases a with
    | execute st => exact (quiet_execute ha m).carry hrun h
    | executeAll ss => exact (quiet_executeAll ha m).carry hrun h
    | loop condition body => exact (quiet_loop condition ha m).carry hrun h
    | _ => rfl

theorem Ends.not_returned {r : a.Result} (h : a.Ends context m (.ok r s)) (ha : a.NoReturn) :
    a.returned? r = none := by
  obtain ⟨-, n, hn⟩ := h
  exact run_not_returned ha hn

/-! ## Handing on -/

/-- What an activity comes to when one of its parts ends with `v` on its way: a call has this value, and
all others end with it on its way. -/
def Passes : (a : Activity) → Value → a.Result → Prop
  | call _ _ _, v, r => r = v
  | a, v, r => a.returned? r = some v

end Activity

namespace Course

/-- When a part ends with a value on its way, the course is at its end. -/
def Hands (passes : Value → α → Prop) : Course α → Prop
  | ends _ => True
  | part a _ _ next => ∀ r s,
    (∀ v, a.returned? r = some v → ∃ r', next r s = ends (.ok r' s) ∧ passes v r') ∧
      (a.returned? r = none → (next r s).Hands passes)

variable {passes : Value → α → Prop} {course : Course α}

/-- No part of such a kind. -/
theorem hands_silent {leave : Machine → Machine} {next : a.Result → Machine → Course α}
    (ha : ∀ r, a.returned? r = none) (h : ∀ r s, (next r s).Hands passes) :
    (part a m leave next).Hands passes :=
  fun r s => ⟨fun _ hr => (Option.some_ne_none _ (hr.symm.trans (ha r))).elim, fun _ => h r s⟩

/-- A value that comes from the last part is handed on. -/
theorem hands_last {a b : Activity} {leave : Machine → Machine} (f : b.Result → a.Result)
    (h : ∀ v r, b.returned? r = some v → a.Passes v (f r)) :
    (part b m leave fun r s => ends (.ok (f r) s)).Hands a.Passes :=
  fun r _ => ⟨fun v hr => ⟨f r, rfl, h v r hr⟩, fun _ => trivial⟩

/-- A statement whose value, if one is on its way, goes past everything else. -/
theorem hands_statement {a : Activity} {st : Stmt} {m : Machine} {v' : Value → a.Result}
    {next : Machine → Course a.Result} (hv : ∀ v, a.Passes v (v' v))
    (hnext : ∀ s, (next s).Hands a.Passes) :
    (first (.execute st) m fun (c : Completion) s =>
      match c with
      | .normal => next s
      | .returned v => ends (.ok (v' v) s)).Hands a.Passes := by
  intro c s
  cases c with
  | normal => exact ⟨fun v h => (Option.some_ne_none v h.symm).elim, fun _ => hnext s⟩
  | returned w =>
    refine ⟨fun v h => ⟨v' w, rfl, ?_⟩, fun _ => trivial⟩
    cases h
    exact hv w

theorem Part.unique {i : Nat} (h : course.Part context i b m') (h' : course.Part context i c m'') :
    b = c ∧ m' = m'' := by
  induction i generalizing course with
  | zero =>
    cases course with
    | ends o => exact h.elim
    | part a m leave next => exact ⟨h.1.trans h'.1.symm, h.2.trans h'.2.symm⟩
  | succ i ih =>
    cases course with
    | ends o => exact h.elim
    | part a m leave next =>
      obtain ⟨v, s, ha, hrest⟩ := h
      obtain ⟨v', s', ha', hrest'⟩ := h'
      obtain ⟨rfl, rfl⟩ := Outcome.ok.inj (ha.unique ha')
      exact ih hrest hrest'

/-- A part that ends with a value on its way is the last one, and the course ends with it. -/
theorem Hands.part (hc : course.Hands passes) {i : Nat} (h : course.Part context i b m') {r : b.Result}
    {v : Value} (hb : b.Ends context m' (.ok r s)) (hv : b.returned? r = some v) :
    (∃ r' s', course.Ends context (.ok r' s') ∧ passes v r') ∧
      ∀ j c m'', i < j → ¬ course.Part context j c m'' := by
  induction i generalizing course with
  | zero =>
    cases course with
    | ends o => exact h.elim
    | part a m leave next =>
      obtain ⟨rfl, rfl⟩ := h
      obtain ⟨r', hnext, hpasses⟩ := (hc r (leave s)).1 v hv
      refine ⟨⟨r', leave s, (ends_part_ok hb).2 ?_, hpasses⟩, fun j c m'' hlt hpart => ?_⟩
      · rw [hnext]
        exact ends_ends.2 ⟨Outcome.ok_ne_exhausted _ _, rfl⟩
      · obtain ⟨j, rfl⟩ := Nat.exists_eq_add_of_le' hlt
        obtain ⟨r₁, s₁, hb₁, hrest⟩ := hpart
        obtain ⟨rfl, rfl⟩ := Outcome.ok.inj (hb.unique hb₁)
        rw [hnext] at hrest
        exact hrest.elim
  | succ i ih =>
    cases course with
    | ends o => exact h.elim
    | part a m leave next =>
      obtain ⟨r₁, s₁, ha, hrest⟩ := h
      have hsilent : a.returned? r₁ = none := by
        cases hr : a.returned? r₁ with
        | none => rfl
        | some w =>
          obtain ⟨r', hnext, -⟩ := (hc r₁ (leave s₁)).1 w hr
          rw [hnext] at hrest
          exact hrest.elim
      obtain ⟨⟨r', s', hends, hpasses⟩, hlast⟩ := ih ((hc r₁ _).2 hsilent) hrest
      refine ⟨⟨r', s', (ends_part_ok ha).2 hends, hpasses⟩, fun j c m'' hlt hpart => ?_⟩
      obtain ⟨j, rfl⟩ := Nat.exists_eq_add_of_le' (Nat.lt_of_le_of_lt (Nat.zero_le _) hlt)
      obtain ⟨r₂, s₂, ha₂, hpart⟩ := hpart
      obtain ⟨rfl, rfl⟩ := Outcome.ok.inj (ha.unique ha₂)
      exact hlast j c m'' (Nat.lt_of_succ_lt_succ hlt) hpart

end Course

namespace Activity

open Course

theorem hands_evaluate (e : Expr) (m : Machine) :
    ((evaluate e).course context m).Hands (evaluate e).Passes := by
  cases e with
  | constant value => exact trivial
  | grouping inner => exact hands_silent (fun _ => rfl) fun _ _ => trivial
  | unary operator operand => exact hands_silent (fun _ => rfl) fun _ _ => trivial
  | binary left operator right =>
    exact hands_silent (fun _ => rfl) fun _ _ => hands_silent (fun _ => rfl) fun _ _ => trivial
  | logical left operator right =>
    refine hands_silent (fun _ => rfl) fun a s => ?_
    split
    · exact trivial
    · exact hands_silent (fun _ => rfl) fun _ _ => trivial
  | read id name => exact trivial
  | assign id name value => exact hands_silent (fun _ => rfl) fun _ _ => trivial
  | call callee paren arguments =>
    refine hands_silent (fun _ => rfl) fun f _ => hands_silent (fun _ => rfl) fun values s => ?_
    cases f with
    | callable identity function =>
      dsimp only
      split
      · exact hands_silent (fun _ => rfl) fun _ _ => trivial
      · exact trivial
    | _ => exact trivial
  | function keyword params body => exact trivial

theorem hands_execute (st : Stmt) (m : Machine) :
    ((execute st).course context m).Hands (execute st).Passes := by
  cases st with
  | expression value => exact hands_silent (fun _ => rfl) fun _ _ => trivial
  | print keyword value => exact hands_silent (fun _ => rfl) fun _ _ => trivial
  | var name initializer =>
    cases initializer with
    | none => exact trivial
    | some value => exact hands_silent (fun _ => rfl) fun _ _ => trivial
  | block body => exact hands_last id fun _ _ hr => hr
  | ifElse condition thenBranch elseBranch =>
    refine hands_silent (fun _ => rfl) fun v s => ?_
    split
    · exact hands_last id fun _ _ hr => hr
    · cases elseBranch with
      | none => exact trivial
      | some branch => exact hands_last id fun _ _ hr => hr
  | «while» condition body => exact hands_last id fun _ _ hr => hr
  | function name params body => exact trivial
  | «return» keyword value =>
    cases value with
    | none => exact trivial
    | some value => exact hands_silent (fun _ => rfl) fun _ _ => trivial

/-- A value on its way is handed on from every part. -/
theorem course_hands (a : Activity) (m : Machine) : (a.course context m).Hands a.Passes := by
  cases a with
  | evaluate e => exact hands_evaluate e m
  | evaluateAll es =>
    cases es with
    | nil => exact trivial
    | cons e es =>
      exact hands_silent (fun _ => rfl) fun _ _ => hands_silent (fun _ => rfl) fun _ _ => trivial
  | call function paren values =>
    cases function with
    | native name arity => exact trivial
    | closure name params body frame =>
      simp only [course]
      split
      · exact trivial
      · intro c s
        cases c with
        | normal => exact ⟨fun v h => (Option.some_ne_none v h.symm).elim, fun _ => trivial⟩
        | returned w => exact ⟨fun v h => ⟨w, rfl, Option.some.inj h⟩, fun _ => trivial⟩
  | execute st => exact hands_execute st m
  | executeAll ss =>
    cases ss with
    | nil => exact trivial
    | cons st ss => exact hands_statement (fun _ => rfl) fun _ => hands_last id fun _ _ hr => hr
  | loop condition body =>
    refine hands_silent (fun _ => rfl) fun v s => ?_
    split
    · exact hands_statement (fun _ => rfl) fun _ => hands_last id fun _ _ hr => hr
    · exact trivial

end Activity

/-! ## Moments -/

/-- The second moment comes after the first: where the paths part, it is in a later part. -/
inductive After : Path → Path → Prop
  | later {a b : Activity} {i j : Nat} {p q : Path} : i < j → After ((a, i) :: p) ((b, j) :: q)
  | within {step : Activity × Nat} {p q : Path} : After p q → After (step :: p) (step :: q)

/-- No moment of the activity comes after the one to which the path leads. -/
def Last (context : Context) (a : Activity) (m : Machine) (path : Path) : Prop :=
  ∀ q b m', Comes context a m q b m' → ¬ After path q

variable {path : Path} {i : Nat}

theorem last_nil : Last context a m [] := by
  intro q b m' _ hafter
  cases hafter

/-- A moment is the last one if it is in the last part and the last one there. -/
theorem last_cons (hpart : (a.course context m).Part context i b m')
    (hi : ∀ j c m'', i < j → ¬ (a.course context m).Part context j c m'')
    (h : Last context b m' path) : Last context a m ((a, i) :: path) := by
  intro q d m'' hcomes hafter
  cases hafter with
  | later hlt =>
    cases hcomes with
    | within hother _ => exact hi _ _ _ hlt hother
  | within hafter =>
    cases hcomes with
    | within hother hrest =>
      obtain ⟨rfl, rfl⟩ := hother.unique hpart
      exact h _ _ _ hrest hafter

/-- The call that a value on its way comes to, the innermost one on the path. -/
def ComesToCall (context : Context) (a : Activity) (m : Machine) (path : Path) (v : Value) : Prop :=
  ∃ before function paren values between m₁,
    path = before ++ (.call function paren values, 0) :: between ∧ bodies between = 0 ∧
    Comes context a m before (.call function paren values) m₁ ∧
    (∃ m₂, (Activity.call function paren values).Ends context m₁ (.ok v m₂)) ∧
    Last context (.call function paren values) m₁ ((.call function paren values, 0) :: between)

/-- A value on its way comes to the innermost call, or to the end of everything when there is none. -/
theorem Comes.returned (h : Comes context a m path b m') {r : b.Result} {v : Value}
    (hb : b.Ends context m' (.ok r s)) (hv : b.returned? r = some v) :
    (bodies path = 0 ∧ (∃ r' s', a.Ends context m (.ok r' s') ∧ a.returned? r' = some v) ∧
      Last context a m path) ∨ ComesToCall context a m path v := by
  induction h with
  | start a m => exact .inl ⟨rfl, ⟨r, s, hb, hv⟩, last_nil⟩
  | @within a m i b m' path c m'' hpart hrest ih =>
    rcases ih hb hv with ⟨hnone, ⟨r₁, s₁, hends, hr₁⟩, hlast⟩ | hcall
    · obtain ⟨⟨r₂, s₂, hends₂, hpasses⟩, hno⟩ := (a.course_hands m).part hpart hends hr₁
      have hlast₂ := last_cons hpart hno hlast
      have hends₂ := Activity.ends_iff.2 hends₂
      cases a with
      | call function paren values =>
        obtain ⟨-, rfl, -⟩ := Activity.part_call hpart
        cases hpasses
        exact .inr ⟨[], function, paren, values, path, m, rfl, hnone, .start _ _, ⟨s₂, hends₂⟩, hlast₂⟩
      | _ => exact .inl ⟨hnone, ⟨r₂, s₂, hends₂, hpasses⟩, hlast₂⟩
    · obtain ⟨before, function, paren, values, between, m₁, rfl, hnone, hcomes, hends, hlast⟩ := hcall
      exact .inr ⟨(a, i) :: before, function, paren, values, between, m₁, rfl, hnone,
        .within hpart hcomes, hends, hlast⟩

/-- In a program that the resolver accepts, no statement of the program ends with a value on its way.
Each such value, wherever in a run it comes up, becomes the value of the innermost call that goes on,
and nothing of this call comes after it. -/
theorem return_ends_innermost_call {ss : List Stmt}
    (haccepted : resolutionFaults (findingsIn ss) = []) :
    (∀ context, ∀ s ∈ ss, ∀ m c m', (Activity.execute s).Ends context m (.ok c m') → c = .normal) ∧
    ∀ context m path b m' r s v, Occurs context ss m path b m' →
      b.Ends context m' (.ok r s) → b.returned? r = some v →
      ∃ before function paren values between m₁ m₂,
        path = before ++ (.call function paren values, 0) :: between ∧ bodies between = 0 ∧
        Occurs context ss m before (.call function paren values) m₁ ∧
        (Activity.call function paren values).Ends context m₁ (.ok v m₂) ∧
        Last context (.call function paren values) m₁
          ((.call function paren values, 0) :: between) := by
  have hclean := Stmt.noReturnAll_of_findings [] ss haccepted
  refine ⟨fun context st hst m c m' hends => ?_, ?_⟩
  · have hc := hends.not_returned (hclean.mem hst)
    cases c with
    | normal => rfl
    | returned v => cases hc
  · rintro context m path b m' r s v ⟨st, m₀, harrives, hcomes⟩ hb hv
    rcases hcomes.returned hb hv with ⟨-, ⟨r', s', hends, hr'⟩, -⟩ | hcall
    · obtain ⟨before, rest, rfl, -⟩ := harrives
      have hst : st.NoReturn := hclean.mem (List.mem_append_right before List.mem_cons_self)
      exact absurd ((hends.not_returned hst).symm.trans hr') (Option.some_ne_none v).symm
    · obtain ⟨before, function, paren, values, between, m₁, rfl, hnone, hbefore, ⟨m₂, hends⟩, hlast⟩ :=
        hcall
      exact ⟨before, function, paren, values, between, m₁, m₂, rfl, hnone,
        ⟨st, m₀, harrives, hbefore⟩, hends, hlast⟩

/-- A function that is called at once gives what a block in it returns. -/
theorem return_ends_innermost_call_block :
    let paren : Token := ⟨.closeParen, ")", none, 1⟩
    let returned : Stmt := .return paren (some (.constant (.bool true)))
    let ss : List Stmt := [.expression (.call (.function paren [] [.block [returned]]) paren [])]
    resolutionFaults (findingsIn ss) = [] ∧
      ∃ path m, Occurs ⟨.bare, {}⟩ ss (.start .bare) path (.execute returned) m ∧
        ∃ before function paren values m₁ m₂,
          Occurs ⟨.bare, {}⟩ ss (.start .bare) before (.call function paren values) m₁ ∧
            (Activity.call function paren values).Ends ⟨.bare, {}⟩ m₁ (.ok (.bool true) m₂) := by
  intro paren returned ss
  have hclean : resolutionFaults (findingsIn ss) = [] := by decide
  have hcall : (Activity.evaluate (.call (.function paren [] [.block [returned]]) paren [])).course
      ⟨.bare, {}⟩ (.start .bare) |>.Part ⟨.bare, {}⟩ 2
        (.call (.closure none [] [.block [returned]] 0) paren []) _ :=
    ⟨_, _, Activity.ends_of_ok (n := 1) rfl, _, _, Activity.ends_of_ok (n := 1) rfl, rfl, rfl⟩
  have hmoment : ∃ path m, Occurs ⟨.bare, {}⟩ ss (.start .bare) path (.execute returned) m :=
    ⟨_, _, _, _, ⟨[], [], rfl, 0, rfl⟩, .within (i := 0) ⟨rfl, rfl⟩ (.within hcall
      (.within (i := 0) ⟨rfl, rfl⟩ (.within (i := 0) ⟨rfl, rfl⟩ (.within (i := 0) ⟨rfl, rfl⟩
        (.within (i := 0) ⟨rfl, rfl⟩ (.start _ _))))))⟩
  obtain ⟨path, m, hmoment⟩ := hmoment
  obtain ⟨before, function, paren', values, between, m₁, m₂, -, -, hbefore, hends, -⟩ :=
    (return_ends_innermost_call hclean).2 _ _ path (.execute returned) m
      (Completion.returned (.bool true)) m (.bool true) hmoment
      (Activity.ends_of_ok (n := 2) rfl) rfl
  exact ⟨hclean, path, m, hmoment, before, function, paren', values, m₁, m₂, hbefore, hends⟩

end LoxLang
