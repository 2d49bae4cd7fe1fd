import LoxLang.Proofs.Printing.Bare
import LoxLang.Proofs.Syntax.Renaming
import LoxLang.Session

/-!
What the analysis of a text hangs on.

The number from which nodes are numbered has no say in it: there are the same faults
(`analyse_faults`), and the same statements but for the numbers (`unnumbered_analyse`).
-/

namespace LoxLang

/-- Which faults the resolution finds does not hang on the node numbers. -/
theorem resolutionFaults_unnumbered (ss : List Stmt) :
    resolutionFaults (findingsIn (unnumbered ss)) = resolutionFaults (findingsIn ss) := by
  rw [resolutionFaults_relabel (f := id) fun _ => rfl]
  simp

/-- A fault of the resolution does not hang on lines either. -/
theorem resolutionFaults_of_bareAll_eq {ss ss' : List Stmt} (h : bareAll ss = bareAll ss')
    (hnone : resolutionFaults (findingsIn ss') = []) : resolutionFaults (findingsIn ss) = [] := by
  have hboth := congrArg (fun ss => resolutionFaults (findingsIn ss)) h
  simp only [resolutionFaults_relabel (f := Token.unlined) fun _ => rfl] at hboth
  rw [hnone] at hboth
  exact List.map_eq_nil_iff.1 hboth

namespace Session

/-- A text without faults has none in any phase. -/
theorem faults_analyse_eq_nil_iff {source : String} {n : NodeId} :
    (analyse source n).faults = [] ↔
      Token.errorsIn source = [] ∧ (analyse source n).program.faults = [] ∧
        resolutionFaults (findingsIn (analyse source n).program.statements) = [] := by
  show _ ++ (analyse source n).program.faults.map _ ++
    (resolutionFaults (findingsIn (analyse source n).program.statements)).map _ = [] ↔ _
  rw [List.append_eq_nil_iff, List.append_eq_nil_iff, List.map_eq_nil_iff, List.map_eq_nil_iff,
    List.map_eq_nil_iff, and_assoc]

theorem unnumbered_analyse (source : String) (m n : NodeId) :
    unnumbered (analyse source m).program.statements =
      unnumbered (analyse source n).program.statements :=
  (Program.ofTokens_anew _ m n).1

theorem analyse_faults (source : String) (m n : NodeId) :
    (analyse source m).faults = (analyse source n).faults := by
  have hread : (analyse source m).program.faults = (analyse source n).program.faults :=
    (Program.ofTokens_anew _ m n).2
  have hresolved : resolutionFaults (findingsIn (analyse source m).program.statements) =
      resolutionFaults (findingsIn (analyse source n).program.statements) := by
    rw [← resolutionFaults_unnumbered, unnumbered_analyse source m n, resolutionFaults_unnumbered]
  show _ ++ (analyse source m).program.faults.map _ ++
    (resolutionFaults (findingsIn (analyse source m).program.statements)).map _ = _
  rw [hread, hresolved]
  rfl

end Session

end LoxLang
