import LoxLang.Proofs.Machine.Stops
import LoxLang.Proofs.Syntax.MadeOf
import LoxLang.Proofs.Syntax.TapeReading
import LoxLang.Proofs.Token.Slices
import LoxLang.Proofs.Traced.Reached

/-!
No text and no list of tokens leads astray.

A text can be cut by byte positions, and a list of tokens read by positions in it, without any of the
mishaps there might be.  What is read has lawful operators only; so in every session the functions in
the frames have lawful bodies, and no program comes by an operator that the machine does not know
(`Session.scanned_read_not_malformed`).
-/

namespace LoxLang

namespace Session

variable {host : Host} {s : Session}

/-- The functions that programs leave behind were read from tokens. -/
theorem Reachable.lawful (hh : host.Sober) (h : s.Reachable host) : s.machine.Lawful := by
  induction h with
  | start => exact Machine.lawful_start host
  | later _ _ ih => exact ih
  | @executed s bound p m tokens _ hp hm ih =>
    subst hp
    have hstatements : Stmt.LawfulAll (Program.ofTokens tokens s.nextId).statements :=
      Program.statements_lawful tokens s.nextId
    let locals := s.locals.extend (findingsIn (Program.ofTokens tokens s.nextId).statements)
    have horderly : Run.Orderly True (Run.executeProgram ⟨host, locals⟩ bound
        (Program.ofTokens tokens s.nextId).statements) fun _ => True :=
      Run.orderly_executeProgram hh bound _ fun _ => hstatements
    have hlawful : m.Lawful := (horderly s.machine fun _ => ih).state? hm
      (fun _ _ hgood => hgood.1 trivial) fun _ _ hbad => hbad.1 trivial
    exact hlawful

/-- Every text can be cut with all slices between two characters.  Every list of tokens can be read
with an index that no closing token stands before, and whatever is called for a token passes just
that token.  And whatever tokens a program is read from, in whatever session it is executed, it does
not come by an operator that the machine does not know. -/
theorem scanned_read_not_malformed (reading : Nat → Except String Float) :
    (∀ text, Token.scanned? text = some (Token.ofText text, Token.errorsIn text)) ∧
      (∀ (tokens : List Token) (nextId : NodeId), ∃ t,
        Tape.read tokens nextId = .ok (Program.ofTokens tokens nextId).statements t ∧
          t.faults.reverse = (Program.ofTokens tokens nextId).faults ∧
          t.nextId = (Program.ofTokens tokens nextId).nextId) ∧
      ∀ s, Session.Reachable (Host.timed reading) s →
        ∀ (tokens : List Token) (nextId : NodeId) (locals : Locals) (bound : Nat) (operator : Token)
          (m : Machine),
          Run.executeProgram ⟨Host.timed reading, locals⟩ bound
            (Program.ofTokens tokens nextId).statements s.machine ≠ .error (.malformed operator) m := by
  refine ⟨Token.scanned?_eq, fun tokens nextId => ?_, ?_⟩
  · obtain ⟨t, hread, hfaults, hnextId, -⟩ := Tape.read_eq tokens nextId
    exact ⟨t, hread, hfaults, hnextId⟩
  · intro s hs tokens nextId locals bound operator m hm
    have hh := Host.sober_timed reading
    have horderly : Run.Orderly True (Run.executeProgram ⟨Host.timed reading, locals⟩ bound
        (Program.ofTokens tokens nextId).statements) fun _ => True :=
      Run.orderly_executeProgram hh bound _ fun _ => Program.statements_lawful tokens nextId
    have horderly := horderly s.machine fun _ => hs.lawful hh
    rw [hm] at horderly
    exact horderly.2 trivial

/-- A failing clock, and tokens that go on behind a closing token. -/
theorem scanned_read_not_malformed_start :
    let host := Host.timed fun _ => .error "clock went backwards"
    let tokens := Token.ofText "fun f(x) { return -x < !clock(); } print f(1);" ++
      Token.ofText "print -;"
    (Session.start host).Reachable host ∧ ∀ operator m,
      Run.executeProgram ⟨host, {}⟩ 20 (Program.ofTokens tokens 0).statements
        (Session.start host).machine ≠ .error (.malformed operator) m := by
  intro host tokens
  refine ⟨.start, fun operator m => ?_⟩
  exact (scanned_read_not_malformed _).2.2 _ .start tokens 0 {} 20 operator m

end Session

end LoxLang
