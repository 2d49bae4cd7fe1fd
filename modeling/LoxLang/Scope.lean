/-!
Scopes as the resolution of names sees them: which names are declared, and which of these are ready,
that is, have their initializer behind them.
-/

namespace LoxLang

/-- The declared names, the latest declaration first, and whether each is ready. -/
structure Scope where
  names : List (String × Bool) := []
  deriving Repr

namespace Scope

/-- Whether a declared name is ready; nothing for a name that is not declared. -/
def ready? (s : Scope) (name : String) : Option Bool := s.names.lookup name

def declares (s : Scope) (name : String) : Bool := (s.ready? name).isSome

/-- Declares a name, not ready yet.  It may have been declared before. -/
def declare (s : Scope) (name : String) : Scope := ⟨(name, false) :: s.names⟩

/-- Marks a name as ready. -/
def define (s : Scope) (name : String) : Scope := ⟨(name, true) :: s.names⟩

@[simp] theorem ready?_empty (name : String) : ({} : Scope).ready? name = none := rfl

theorem ready?_declare (s : Scope) (declared name : String) :
    (s.declare declared).ready? name = if name = declared then some false else s.ready? name := by
  simp only [ready?, declare, List.lookup_cons]
  split <;> simp_all

theorem ready?_define (s : Scope) (defined name : String) :
    (s.define defined).ready? name = if name = defined then some true else s.ready? name := by
  simp only [ready?, define, List.lookup_cons]
  split <;> simp_all

theorem declares_declare (s : Scope) (declared name : String) :
    (s.declare declared).declares name = true ↔ name = declared ∨ s.declares name = true := by
  rw [declares, ready?_declare]
  by_cases hname : name = declared
  · simp [hname]
  · simp [hname, declares]

theorem declares_define (s : Scope) (defined name : String) :
    (s.define defined).declares name = true ↔ name = defined ∨ s.declares name = true := by
  rw [declares, ready?_define]
  by_cases hname : name = defined
  · simp [hname]
  · simp [hname, declares]

theorem declares_bind (s : Scope) (bound name : String) :
    ((s.declare bound).define bound).declares name = true ↔
      name = bound ∨ s.declares name = true := by
  rw [declares_define, declares_declare, ← or_assoc, or_self]

end Scope

end LoxLang
