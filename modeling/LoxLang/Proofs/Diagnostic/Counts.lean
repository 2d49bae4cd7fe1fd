import LoxLang.Diagnostic.Log

/-!
Counts of diagnostics.

A log keeps a count for each phase beside its entries, and the two agree as long as diagnostics come in
one by one and are cleared all at once (`Log.Tallied`).  A reporter passes diagnostics on to a log, and
counts those that show before a program is run; that count knows nothing of what the log held before.
-/

namespace LoxLang

namespace Log

variable {log : Log}

/-- The counts are those of the entries. -/
def Tallied (log : Log) : Prop :=
  ∀ p, log.count p = log.entries.toList.countP fun d => d.phase = p

theorem tallied_empty (file : Option String) : (Log.empty file).Tallied := by
  intro p
  cases p <;> rfl

theorem tallied_clear (log : Log) : log.clear.Tallied := by
  intro p
  cases p <;> rfl

theorem toList_add (log : Log) (d : Diagnostic) :
    (log.add d).entries.toList = log.entries.toList ++ [d] := Array.toList_push

theorem Tallied.add (h : log.Tallied) (d : Diagnostic) : (log.add d).Tallied := by
  intro p
  have hcount : (log.add d).count p = log.count p + if d.phase = p then 1 else 0 :=
    PhaseCounts.get_increment log.counts d.phase p
  rw [hcount, h p, toList_add, List.countP_append, List.countP_singleton]
  simp only [decide_eq_true_eq]

theorem Tallied.addAll (h : log.Tallied) (ds : List Diagnostic) : (log.addAll ds).Tallied := by
  induction ds generalizing log with
  | nil => exact h
  | cons d ds ih => exact ih (h.add d)

theorem toList_addAll (log : Log) (ds : List Diagnostic) :
    (log.addAll ds).entries.toList = log.entries.toList ++ ds := by
  induction ds generalizing log with
  | nil => exact (List.append_nil _).symm
  | cons d ds ih =>
    show ((log.add d).addAll ds).entries.toList = _
    rw [ih, toList_add, List.append_assoc]
    rfl

theorem file_addAll (log : Log) (ds : List Diagnostic) : (log.addAll ds).file = log.file := by
  induction ds generalizing log with
  | nil => rfl
  | cons d ds ih => exact ih (log.add d)

theorem Tallied.hasRuntimeError_iff (h : log.Tallied) :
    log.hasRuntimeError = true ↔ ∃ d ∈ log.entries.toList, d.phase = .runtime := by
  rw [hasRuntimeError, decide_eq_true_iff, h .runtime, List.countP_pos_iff]
  simp only [decide_eq_true_eq]

theorem Tallied.hasStaticErrors_iff (h : log.Tallied) :
    log.hasStaticErrors = true ↔ ∃ d ∈ log.entries.toList, d.phase ≠ .runtime := by
  have hlt : log.entries.toList.countP (fun d => d.phase = .runtime) < log.entries.toList.length ↔
      ∃ d ∈ log.entries.toList, d.phase ≠ .runtime := by
    rw [Nat.lt_iff_le_and_ne, and_iff_right List.countP_le_length, Ne, List.countP_eq_length]
    simp only [decide_eq_true_eq, Classical.not_forall, exists_prop, ne_eq]
  rw [hasStaticErrors, decide_eq_true_iff, h .runtime, size, ← Array.length_toList]
  exact hlt

end Log

/-- What a run reports to. -/
structure Reporter where
  log : Log
  /-- How many diagnostics of other phases than the run have come in. -/
  staticErrors : Nat

namespace Reporter

def start (log : Log) : Reporter := ⟨log, 0⟩

def report (r : Reporter) (d : Diagnostic) : Reporter :=
  ⟨r.log.add d, if d.phase ≠ .runtime then r.staticErrors + 1 else r.staticErrors⟩

def reportAll (r : Reporter) (ds : List Diagnostic) : Reporter := ds.foldl report r

theorem log_report (r : Reporter) (d : Diagnostic) : (r.report d).log = r.log.add d := rfl

theorem reportAll_append (r : Reporter) (ds es : List Diagnostic) :
    r.reportAll (ds ++ es) = (r.reportAll ds).reportAll es := List.foldl_append

theorem log_reportAll (r : Reporter) (ds : List Diagnostic) :
    (r.reportAll ds).log = r.log.addAll ds := by
  induction ds generalizing r with
  | nil => rfl
  | cons d ds ih => exact ih (r.report d)

/-- Diagnostics of other phases than the run are all counted. -/
theorem staticErrors_reportAll (r : Reporter) {ds : List Diagnostic}
    (h : ∀ d ∈ ds, d.phase ≠ .runtime) :
    (r.reportAll ds).staticErrors = r.staticErrors + ds.length := by
  induction ds generalizing r with
  | nil => rfl
  | cons d ds ih =>
    obtain ⟨hd, hds⟩ := List.forall_mem_cons.1 h
    have hstep : (r.report d).staticErrors = r.staticErrors + 1 := if_pos hd
    show ((r.report d).reportAll ds).staticErrors = _
    rw [ih (r.report d) hds, hstep, List.length_cons, Nat.add_assoc, Nat.add_comm 1]

end Reporter

end LoxLang
