import LoxLang.Proofs.Session.Analysis
import LoxLang.Proofs.Session.Story

/-!
The tokens at which faults are.

A diagnostic keeps the line and the lexeme of its token, and two tokens of a text may share both.
To tell them apart, the tokens are given their numbers in place of their lines (`Token.numbered`).
Reading and resolution look at no line, so they find the same faults in the numbered tokens, and
these say by number which token each fault is at (`offences`, `tokenFaults_offences`).
-/

namespace LoxLang

/-- The faults of a program that are at tokens: those of reading, then those of the resolution. -/
def tokenFaults (tokens : List Token) : List TokenError :=
  let program := Program.ofTokens tokens 0
  program.faults ++ resolutionFaults (findingsIn program.statements)

/-- The tokens with their numbers in place of their lines. -/
def Token.numbered (tokens : List Token) : List Token :=
  tokens.mapIdx fun i t => { t with line := i }

/-- The faults at tokens, each as the number of its token and what is wrong there. -/
def offences (tokens : List Token) : List (Nat × Cause) :=
  (tokenFaults (Token.numbered tokens)).map fun e => (e.token.line, e.cause)

/-! ## Faults come from tokens of the program -/

theorem tokenFaults_map {f : Token → Token} (hf : KeepsText f) (ts : List Token) {last : Token}
    (hlast : last.kind = .eof) :
    tokenFaults ((ts ++ [last]).map f) = (tokenFaults (ts ++ [last])).map (·.relabel f) := by
  have hread := Program.ofTokens_map hf 0 ts hlast 0
  rw [Nat.zero_add] at hread
  have hresolved := resolutionFaults_relabel hf.lexeme (· + 0)
    (Program.ofTokens (ts ++ [last]) 0).statements
  rw [tokenFaults, hread, tokenFaults, List.map_append, ← hresolved]
  rfl

/-- A change of lines that leaves the tokens of a program as they are leaves its faults as they are,
so these are at such tokens. -/
theorem token_mem_of_mem_tokenFaults {ts : List Token} {last : Token} (hlast : last.kind = .eof)
    {e : TokenError} (h : e ∈ tokenFaults (ts ++ [last])) : e.token ∈ ts ++ [last] := by
  classical
  let f : Token → Token := fun t =>
    if t ∈ ts ++ [last] then t else { t with line := t.line + 1 }
  have hf : KeepsText f := by
    constructor <;> intro t <;> dsimp only [f] <;> split <;> rfl
  have hfixed : (ts ++ [last]).map f = (ts ++ [last]).map id :=
    List.map_congr_left fun t ht => if_pos ht
  have hfaults := tokenFaults_map hf ts hlast
  rw [hfixed, tokenFaults_map Program.keepsText_id ts hlast] at hfaults
  have hall : ∀ x ∈ tokenFaults (ts ++ [last]), x.relabel id = x.relabel f :=
    List.map_inj_left.1 hfaults
  by_contra hnot
  have hline : (f e.token).line = e.token.line := congrArg (·.token.line) (hall e h).symm
  have hmoved : (f e.token).line = e.token.line + 1 := by
    dsimp only [f]
    rw [if_neg hnot]
  omega

/-! ## Which tokens -/

/-- Each fault is at the token that its number says. -/
theorem tokenFaults_offences {ts : List Token} {last : Token} (hlast : last.kind = .eof) :
    List.Forall₂ (fun e o => (ts ++ [last])[o.1]? = some e.token ∧ e.cause = o.2)
      (tokenFaults (ts ++ [last])) (offences (ts ++ [last])) := by
  let f : Token → Token := fun t => { t with line := ((ts ++ [last])[t.line]?).elim 0 (·.line) }
  have hf : KeepsText f := ⟨fun _ => rfl, fun _ => rfl, fun _ => rfl, fun _ => rfl⟩
  have hat : ∀ i t, (ts ++ [last])[i]? = some t → f { t with line := i } = t := by
    intro i t ht
    dsimp only [f]
    rw [ht]
    rfl
  have hback : (Token.numbered (ts ++ [last])).map f = ts ++ [last] := by
    apply List.ext_getElem?
    intro i
    rw [List.getElem?_map, Token.numbered, List.getElem?_mapIdx]
    cases ht : (ts ++ [last])[i]? with
    | none => rfl
    | some t => exact congrArg some (hat i t ht)
  obtain ⟨us, last', hnumbered, hlast'⟩ : ∃ us last', Token.numbered (ts ++ [last]) = us ++ [last'] ∧
      last'.kind = .eof :=
    ⟨_, _, List.mapIdx_concat, hlast⟩
  have hfaults := tokenFaults_map hf us hlast'
  rw [← hnumbered, hback] at hfaults
  rw [hfaults, offences, List.forall₂_map_left_iff, List.forall₂_map_right_iff, List.forall₂_same]
  intro e he
  rw [hnumbered] at he
  have hmem := token_mem_of_mem_tokenFaults hlast' he
  rw [← hnumbered, Token.numbered, List.mem_mapIdx] at hmem
  obtain ⟨i, hi, htoken⟩ := hmem
  have ht := List.getElem?_eq_getElem hi
  refine ⟨?_, rfl⟩
  show (ts ++ [last])[e.token.line]? = some (f e.token)
  rw [← htoken, hat i _ ht]
  exact ht

namespace Session

/-- The faults of an analysis are those of the text itself and those at tokens. -/
theorem analyse_faults_eq (source : String) (nextId : NodeId) :
    (analyse source nextId).faults = (Token.errorsIn source).map (·.diagnostic) ++
      (tokenFaults (Token.ofText source)).map (·.diagnostic) := by
  rw [analyse_faults source nextId 0, tokenFaults, List.map_append, ← List.append_assoc]
  rfl

end Session

end LoxLang
