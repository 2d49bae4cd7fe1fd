import LoxLang.Proofs.Scope.References
import LoxLang.Proofs.Syntax.Proper
import LoxLang.Proofs.Syntax.StatementDerivation
import LoxLang.Session

/-!
Programs that a session accepts.

The nodes of a program have numbers that no earlier program of the session has used.  So when a
program without faults is added to the table of distances, the table settles what was found in it,
and the entries of earlier programs stay as they are.
-/

namespace LoxLang

/-- Whatever tokens are read as is a proper program. -/
theorem Program.statements_proper (tokens : List Token) (nextId : NodeId) :
    Stmt.ProperAll (Program.ofTokens tokens nextId).statements :=
  let ⟨_, _, hderived⟩ := Program.statements_derived tokens nextId
  Grammar.declarations_proper hderived

namespace Session

theorem analyse_proper (source : String) (nextId : NodeId) :
    Stmt.ProperAll (analyse source nextId).program.statements :=
  Program.statements_proper (Token.ofText source) nextId

theorem nextId_le_analyse (source : String) (nextId : NodeId) :
    nextId ≤ (analyse source nextId).program.nextId :=
  (Program.statements_numbered (Token.ofText source) nextId).1

/-- The table has no entries for numbers that are still to be given out. -/
def Unused (table : Locals) (nextId : NodeId) : Prop := ∀ id, nextId ≤ id → table[id]? = none

theorem Unused.mono {table : Locals} {nextId later : NodeId} (h : Unused table nextId)
    (hle : nextId ≤ later) : Unused table later :=
  fun id hid => h id (Nat.le_trans hle hid)

theorem unused_empty (nextId : NodeId) : Unused {} nextId :=
  fun _ _ => Std.TreeMap.getElem?_emptyc

/-- What holds of an accepted program once it has been added to the table. -/
structure Accepted (table extended : Locals) (nextId : NodeId) (a : Analysis) : Prop where
  proper : Stmt.ProperAll a.program.statements
  settled : Settled extended a.program.nextId (findingsIn a.program.statements)
  old : ∀ id < nextId, extended[id]? = table[id]?
  unused : Unused extended a.program.nextId

theorem accepted (source : String) {nextId : NodeId} {table : Locals}
    (htable : Unused table nextId) (hfaults : (analyse source nextId).faults = []) :
    Accepted table (table.extend (analyse source nextId).findings) nextId
      (analyse source nextId) := by
  obtain ⟨hle, hnodup, hids⟩ := Program.statements_numbered (Token.ofText source) nextId
  have hresolved : resolutionFaults (findingsIn
      (Program.ofTokens (Token.ofText source) nextId).statements) = [] :=
    List.map_eq_nil_iff.1 (List.append_eq_nil_iff.1 hfaults).2
  obtain ⟨hrecorded, hold, hnew⟩ := recorded_extend htable hnodup hids
  have hfindings : (analyse source nextId).findings =
      findingsIn (Program.ofTokens (Token.ofText source) nextId).statements := rfl
  rw [hfindings]
  exact ⟨analyse_proper source nextId, hrecorded.settled hresolved, hold,
    fun id hid => hnew id hid (Nat.le_trans hle hid)⟩

end Session

end LoxLang
