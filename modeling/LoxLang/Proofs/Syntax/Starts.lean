import LoxLang.Proofs.Syntax.Levels
import LoxLang.Proofs.Syntax.Ahead

/-!
What an expression, a statement or a declaration starts with.

Reading decides by the first token what it is to read, so what is derived must start with a token
that leads there.
-/

namespace LoxLang.Grammar

variable {fits : Nat → Prop}

/-- Where an expression starts.  Behind `fun` there is a list of parameters, not a name. -/
def StartsExpression (ts : List Token) : Prop :=
  (firstKind ts).startsExpression = true ∧ (firstKind ts = .funKw → firstKind ts.tail = .openParen)

theorem StartsExpression.append {ts : List Token} (h : StartsExpression ts) (us : List Token) :
    StartsExpression (ts ++ us) := by
  obtain ⟨hs, hf⟩ := h
  match ts, hs, hf with
  | [], hs, _ => exact absurd hs (by decide)
  | [t], hs, hf =>
    refine ⟨hs, fun ht => ?_⟩
    have he : Kind.eof = .openParen := hf ht
    exact absurd he (by decide)
  | t :: u :: ts, hs, hf => exact ⟨hs, hf⟩

theorem startsExpression_of_kind {t : Token} {ts : List Token}
    (h : t.kind.startsExpression = true) (hf : t.kind ≠ .funKw) : StartsExpression (t :: ts) :=
  ⟨h, fun ht => absurd ht hf⟩

theorem Expression.starts {level : Level} {ts : List Token} {e : Expr}
    (h : Expression fits level ts e) : StartsExpression ts :=
  match h with
  | .assign _ hn _ _ | .read _ hn =>
    startsExpression_of_kind (by rw [hn]; rfl) (by rw [hn]; decide)
  | .operation _ hl _ => hl.starts.append _
  | .unary ho _ => by
    rcases ho with ho | ho
    · exact startsExpression_of_kind (by rw [ho]; rfl) (by rw [ho]; decide)
    · exact startsExpression_of_kind (by rw [ho]; rfl) (by rw [ho]; decide)
  | .call _ _ hc _ _ => hc.starts.append _
  | .number ht | .string ht | .true ht | .false ht | .nil ht =>
    startsExpression_of_kind (by rw [ht]; rfl) (by rw [ht]; decide)
  | .grouping ho _ _ => startsExpression_of_kind (by rw [ho]; rfl) (by rw [ho]; decide)
  | .function hk hf => by
    cases hf with
    | mk ho => exact ⟨by rw [firstKind_cons, hk]; rfl, fun _ => ho⟩
  | .tighter h => h.starts
termination_by structural h

theorem StartsExpression.ne_nil {ts : List Token} (h : StartsExpression ts) : ts ≠ [] := by
  rintro rfl
  exact absurd h.1 (by decide)

/-- The kinds that lead to an expression statement lead to nothing else. -/
theorem StartsExpression.firstKind_ne {ts : List Token} (h : StartsExpression ts) {k : Kind}
    (hk : k.startsExpression = false) : firstKind ts ≠ k := by
  rintro rfl
  rw [h.1] at hk
  cases hk

theorem Arguments.starts {ts : List Token} {es : List Expr} (h : Arguments fits ts es) :
    StartsExpression ts := by
  cases h with
  | one he => exact he.starts
  | more _ he _ => exact he.starts.append _

/-- Where a statement starts: at its keyword or brace, or at an expression. -/
def StartsStatement (ts : List Token) : Prop :=
  (firstKind ts).startsStatement = true ∨ StartsExpression ts

theorem ExpressionStatement.starts {ts : List Token} {s : Stmt}
    (h : ExpressionStatement fits ts s) : StartsExpression ts := by
  cases h with
  | mk _ he => exact he.starts.append _

theorem Statement.starts {dangling : Bool} {ts : List Token} {s : Stmt}
    (h : Statement fits dangling ts s) : StartsStatement ts := by
  cases h with
  | expression he => exact .inr he.starts
  | print hk | «return» hk | ifThen hk | ifElse hk | «while» hk | «for» hk =>
    exact .inl (by rw [firstKind_cons, hk]; rfl)
  | block hb =>
    cases hb with
    | mk ho => exact .inl (by rw [firstKind_cons, ho]; rfl)

theorem VarDeclaration.starts {ts : List Token} {s : Stmt} (h : VarDeclaration fits ts s) :
    firstKind ts = .varKw := by
  cases h with
  | unset hk | set hk => exact hk

theorem VarDeclaration.ne_nil {ts : List Token} {s : Stmt} (h : VarDeclaration fits ts s) :
    ts ≠ [] := by
  rintro rfl
  exact absurd h.starts (by decide)

theorem Declaration.starts {ts : List Token} {s : Stmt} (h : Declaration fits ts s) :
    StartsStatement ts ∨ firstKind ts = .varKw ∨ firstKind ts = .funKw := by
  cases h with
  | function hk => exact .inr (.inr hk)
  | var hv => exact .inr (.inl hv.starts)
  | statement hs => exact .inl hs.starts

/-- What starts a declaration neither ends a block nor follows a statement. -/
theorem Declaration.firstKind_ne {ts : List Token} {s : Stmt} (h : Declaration fits ts s) :
    firstKind ts ≠ .closeCurly ∧ firstKind ts ≠ .eof ∧ firstKind ts ≠ .elseKw := by
  rcases h.starts with (hs | hs) | hs | hs
  · refine ⟨?_, ?_, ?_⟩ <;> (intro hk; rw [hk] at hs; cases hs)
  · exact ⟨hs.firstKind_ne rfl, hs.firstKind_ne rfl, hs.firstKind_ne rfl⟩
  · rw [hs]
    decide
  · rw [hs]
    decide

theorem Declaration.ne_nil {ts : List Token} {s : Stmt} (h : Declaration fits ts s) :
    ts ≠ [] := by
  rintro rfl
  exact h.firstKind_ne.2.1 rfl

theorem Declarations.firstKind_ne {ts : List Token} {ss : List Stmt}
    (h : Declarations fits ts ss) : firstKind ts ≠ .elseKw := by
  cases h with
  | nil => decide
  | cons hd _ =>
    rw [firstKind_append _ hd.ne_nil]
    exact hd.firstKind_ne.2.2

end LoxLang.Grammar
