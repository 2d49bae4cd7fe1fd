/-!
Searching a text: where a pattern first occurs in it.
-/

namespace LoxLang.Text

/-- How many characters stand before the first occurrence of `pattern`. -/
def indexOf? (pattern : List Char) : List Char → Option Nat
  | [] => if pattern.isEmpty then some 0 else none
  | c :: cs =>
    if pattern.isPrefixOf (c :: cs) then some 0 else (indexOf? pattern cs).map (· + 1)

def occursIn (pattern : List Char) (cs : List Char) : Bool := (indexOf? pattern cs).isSome

theorem prefix_of_indexOf? {pattern cs : List Char} {n : Nat} (h : indexOf? pattern cs = some n) :
    pattern <+: cs.drop n := by
  induction cs generalizing n with
  | nil =>
    simp only [indexOf?, List.isEmpty_iff] at h
    split at h
    · rename_i hp
      exact hp ▸ List.nil_prefix
    · exact absurd h (by simp)
  | cons c cs ih =>
    rw [indexOf?] at h
    split at h
    · rename_i hp
      obtain rfl := Option.some.inj h
      simpa using hp
    · obtain ⟨m, hm, rfl⟩ := Option.map_eq_some_iff.1 h
      simpa using ih hm

end LoxLang.Text
