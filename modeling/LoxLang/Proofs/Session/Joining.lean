import LoxLang.Proofs.Scope.Accepted
import LoxLang.Proofs.Scope.Ready
import LoxLang.Proofs.Session.Analysis
import LoxLang.Proofs.Syntax.Recognition
import LoxLang.Proofs.Token.Joining

/-!
The analysis of two texts with a newline between them.

If neither text has faults, then both together have none, and are read as the statements of the first
one and those of the second one, whose tokens are further down (`analyse_joined`).
-/

namespace LoxLang

open Grammar

theorem keepsText_lower (d : Nat) : KeepsText (Token.lower d) :=
  ⟨fun _ => rfl, fun _ => rfl, fun _ => rfl, fun _ => rfl⟩

/-- The findings in a program are those in its parts. -/
theorem findingsIn_append {xs ys : List Stmt} (hp : Stmt.ProperAll (xs ++ ys)) :
    findingsIn (xs ++ ys) = findingsIn xs ++ findingsIn ys := by
  induction xs with
  | nil => rfl
  | cons x xs ih =>
    have hcons : ∀ zs, findingsIn (x :: zs) = (x.findings false []).1 ++ findingsIn zs := by
      intro zs
      show _ ++ (Stmt.findingsAll false (x.findings false []).2 zs).1 = _
      rw [x.scopes_top hp.1]
      rfl
    rw [List.cons_append, hcons, hcons, ih hp.2, List.append_assoc]

namespace Session

variable {first second : String} {n n' : NodeId}

/-- Further down, a text is read as the same program, further down. -/
theorem ofTokens_lower (d : Nat) (text : String) (n : NodeId) :
    Program.ofTokens ((Token.ofText text).map (Token.lower d)) n =
      (analyse text n).program.relabel (Token.lower d) 0 := by
  have h := Program.ofTokens_map (keepsText_lower d) 0
    ((withLines 1 (segments text.toList)).filterMap fun s => s.1.token? s.2)
    (rfl : (Token.eofAt (1 + Text.newlines text.toList)).kind = .eof) n
  rw [Nat.add_zero] at h
  exact h

theorem derived_lower (h : (analyse second n).faults = []) (d : Nat) :
    Declarations (· ≤ maxArity) (beforeEof ((Token.ofText second).map (Token.lower d)))
      (Stmt.movedAll (Token.lower d) 0 (analyse second n).program.statements) := by
  have hread := ofTokens_lower d second n
  have hclean : (Program.ofTokens ((Token.ofText second).map (Token.lower d)) n).faults = [] := by
    rw [hread, Program.relabel, (faults_analyse_eq_nil_iff.1 h).2.1]
    rfl
  have hderived := Program.derived_of_faults_eq_nil hclean
  rwa [hread] at hderived

/-- The statements of both texts are derived from both with a newline between them. -/
theorem derived_joined (h : (analyse first n).faults = []) (h' : (analyse second n').faults = []) :
    Declarations (· ≤ maxArity) (beforeEof (Token.ofText (first ++ "\n" ++ second)))
      ((analyse first n).program.statements ++
        Stmt.movedAll (Token.lower (1 + Text.newlines first.toList)) 0
          (analyse second n').program.statements) := by
  obtain ⟨hlexical, hread, -⟩ := faults_analyse_eq_nil_iff.1 h
  rw [Token.beforeEof_joined (Token.closed_of_faultless hlexical)]
  exact (Program.derived_of_faults_eq_nil hread).append (derived_lower h' _)

/-- Both texts together have no faults if none has any by itself, and are read as the statements of
each; those of the second one are further down. -/
theorem analyse_joined (h : (analyse first n).faults = []) (h' : (analyse second n').faults = [])
    (m : NodeId) :
    let d := 1 + Text.newlines first.toList
    let joined := analyse (first ++ "\n" ++ second) m
    joined.faults = [] ∧ ∃ ss ss', joined.program.statements = ss ++ ss' ∧
      unnumbered ss = unnumbered (analyse first n).program.statements ∧
      unnumbered ss' = Stmt.relabelAll (Token.lower d) (fun _ => 0)
        (analyse second n').program.statements := by
  intro d joined
  obtain ⟨hlexical, -, hresolved⟩ := faults_analyse_eq_nil_iff.1 h
  obtain ⟨hlexical', -, hresolved'⟩ := faults_analyse_eq_nil_iff.1 h'
  have hderived := derived_joined h h'
  have hfaultless : Token.errorsIn (first ++ "\n" ++ second) = [] := by
    rw [Token.errorsIn_joined (Token.closed_of_faultless hlexical), hlexical, hlexical']
    rfl
  obtain ⟨hread, -, hclean⟩ := Program.ofTokens_of_derived hderived m
  rw [unnumbered, unnumbered, Stmt.relabelAll_eq_map, Stmt.relabelAll_eq_map, List.map_append] at hread
  obtain ⟨ss, ss', hparts, hss, hss'⟩ := List.map_eq_append_iff.1 hread
  rw [← Stmt.relabelAll_eq_map, ← Stmt.relabelAll_eq_map] at hss hss'
  rw [Stmt.movedAll, Stmt.relabelAll_relabelAll] at hss'
  have hproper : Stmt.ProperAll (ss ++ ss') := hparts ▸ analyse_proper _ m
  have hfirst : resolutionFaults (findingsIn ss) = [] := by
    rw [← resolutionFaults_unnumbered, unnumbered, hss, resolutionFaults_unnumbered]
    exact hresolved
  have hsecond : resolutionFaults (findingsIn ss') = [] := by
    rw [← resolutionFaults_unnumbered, unnumbered, hss',
      resolutionFaults_relabel (f := id ∘ Token.lower d) fun _ => rfl]
    exact List.map_eq_nil_iff.2 hresolved'
  refine ⟨faults_analyse_eq_nil_iff.2 ⟨hfaultless, hclean fun _ => id, ?_⟩, ss, ss', hparts, hss,
    hss'⟩
  show resolutionFaults (findingsIn joined.program.statements) = []
  have hjoined : joined.program.statements = ss ++ ss' := hparts
  rw [hjoined, findingsIn_append hproper, resolutionFaults, List.filterMap_append]
  exact List.append_eq_nil_iff.2 ⟨hfirst, hsecond⟩

end Session

end LoxLang
