import LoxLang.Proofs.Lexical.Reference

/-!
Inputs of a session, one after the other.
-/

namespace LoxLang.Session

/-- One input: the bound on the steps of its run, the listings that are wanted, and the text. -/
abbrev Input := Nat × Listings × String

variable (host : Host)

/-- The session after some inputs, if each of them ends within its bound. -/
def after (session : Session) : List Input → Option Session
  | [] => some session
  | (bound, listed, source) :: rest =>
    (session.run host bound listed source).bind fun report => report.session.after rest

variable {host} {s t : Session} {before : List Input}

theorem after_cons {bound : Nat} {listed : Listings} {source : String}
    (h : s.after host ((bound, listed, source) :: before) = some t) :
    ∃ report, s.run host bound listed source = some report ∧
      report.session.after host before = some t :=
  Option.bind_eq_some_iff.1 h

theorem length_endings (h : s.after host before = some t) :
    (s.endings host before).length = before.length := by
  induction before generalizing s with
  | nil => rfl
  | cons input before ih =>
    obtain ⟨report, hrun, hrest⟩ := after_cons h
    rw [endings, hrun, List.length_cons, List.length_cons, ih hrest]

theorem endings_append (h : s.after host before = some t) (rest : List Input) :
    s.endings host (before ++ rest) = s.endings host before ++ t.endings host rest := by
  induction before generalizing s with
  | nil =>
    cases h
    rfl
  | cons input before ih =>
    obtain ⟨report, hrun, hrest⟩ := after_cons h
    rw [List.cons_append, endings, hrun, endings, hrun]
    exact congrArg _ (ih hrest)

end LoxLang.Session
