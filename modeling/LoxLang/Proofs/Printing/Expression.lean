import LoxLang.Proofs.Printing.Writing
import LoxLang.Proofs.Syntax.Starts

/-!
Printed expressions are derived as they were.

One theorem for each rule of the grammar for expressions: if the parts of a tree are printed as
texts from which the grammar derives them again, so is the tree.  Trees are compared in their bare
form.
-/

namespace LoxLang.Grammar

variable (fits : Nat → Prop)

/-- The printed text is derived as the same expression, whatever a clear character begins. -/
def ExpressionPrinted (level : Level) (e : Expr) : Prop :=
  Prints clear e.source fun ts => ∃ e', Expression fits level ts e' ∧ e'.bare = e.bare

def ArgumentsPrinted (es : List Expr) : Prop :=
  Prints clear (", ".intercalate (Expr.sourceAll es)) fun ts =>
    ∃ es', Arguments fits ts es' ∧ Expr.bareAll es' = Expr.bareAll es

def ArgumentListPrinted (es : List Expr) : Prop :=
  Prints clear (", ".intercalate (Expr.sourceAll es)) fun ts =>
    ∃ es', ArgumentList fits ts es' ∧ Expr.bareAll es' = Expr.bareAll es

/-- The parameters and the body of a function, at any depth. -/
def FunctionPrinted (params : List Token) (body : List Stmt) : Prop :=
  ∀ depth, Prints free (parameterSource params ++ Stmt.blockSource depth body) fun ts =>
    ∃ params' body', Function fits ts params' body' ∧
      params'.map Token.unlined = params.map Token.unlined ∧ bareAll body' = bareAll body

variable {fits} {level : Level}

/-! ## What an expression begins with -/

theorem first_equals (cs : List Char) :
    (Segment.first '=' cs).piece = .token .assignment ∨
      (Segment.first '=' cs).piece = .token .equals := by
  cases cs with
  | nil => exact .inl rfl
  | cons c cs =>
    by_cases hc : c = '='
    · subst hc
      exact .inr rfl
    · have hm : (['='], Kind.assignment) ∈ marks := by decide
      have hnext : ∀ d ∈ (c :: cs).head?, Kind.assignment.extendedBy d = false := by
        intro d hd
        cases hd
        simpa [Kind.extendedBy] using hc
      obtain ⟨_, _, he, hf⟩ := Token.first_mark hm hnext
      cases he
      exact .inl (congrArg Segment.piece hf)

/-- No expression begins with an equals sign, so a text that does spells none. -/
theorem Spells.head_ne {line : Nat} {text : List Char} {ts : List Token}
    (h : Spells line text ts) (hs : StartsExpression ts) : ∃ c cs, text = c :: cs ∧ c ≠ '=' := by
  cases h with
  | nil => exact absurd rfl hs.ne_nil
  | @blank _ c cs _ hb =>
    refine ⟨c, cs, rfl, ?_⟩
    rintro rfl
    cases hb
  | @token _ _ t cs us he hstands =>
    obtain ⟨c, w, hl, hf, -⟩ := hstands
    refine ⟨c, w ++ cs, by rw [he, hl, List.cons_append], ?_⟩
    rintro rfl
    have hk : (firstKind (t :: us)).startsExpression = true := hs.1
    rw [firstKind_cons] at hk
    rcases first_equals (w ++ cs) with hp | hp
    · rw [hf] at hp
      rw [Piece.token.inj hp] at hk
      cases hk
    · rw [hf] at hp
      rw [Piece.token.inj hp] at hk
      cases hk

theorem ExpressionPrinted.opens {e : Expr} (h : ExpressionPrinted fits level e) :
    Opens (· != '=') e.source := by
  obtain ⟨ts, ⟨e', he, -⟩, hw⟩ := h 0
  obtain ⟨c, cs, hc, hne⟩ := Spells.head_ne hw.spells he.starts
  exact ⟨c, cs, hc, by simpa using hne⟩

/-! ## Texts of marks -/

theorem prints_equals : Prints free " = " (Fixed [.assignment]) :=
  ((prints_fixed .assignment rfl).afterBlanks (b := " ") rfl).spaced rfl

theorem prints_comma : Prints free ", " (Fixed [.comma]) := (prints_fixed .comma rfl).spaced rfl

theorem prints_opening : Prints free "(" (Fixed [.openParen]) :=
  (prints_fixed .openParen rfl).weaken fun _ _ => rfl

theorem prints_closing : Prints free ")" (Fixed [.closeParen]) :=
  (prints_fixed .closeParen rfl).weaken fun _ _ => rfl

theorem prints_fun : Prints free "fun " (Fixed [.funKw]) := (prints_fixed .funKw rfl).spaced rfl

/-- What may follow an expression extends none of its tokens. -/
theorem clear_of_kind {k : Kind} (hk : k.startsExpression = true)
    (hne : k ≠ .not) (c : Char) (hc : clear c = true) : (!k.extendedBy c) = true := by
  rw [clear, Bool.and_eq_true, Bool.not_eq_true', bne_iff_ne] at hc
  obtain ⟨hw, hdot⟩ := hc
  have hd : c.isDigit = false := by
    simp only [inWord, Char.isAlphanum, Bool.or_eq_false_iff] at hw
    exact hw.1.2
  cases k
  all_goals first
    | exact Bool.noConfusion hk
    | exact absurd rfl hne
    | simp [Kind.extendedBy, hw, hd, hdot]

/-! ## Operators -/

theorem printed_tighter {e : Expr} (h : ExpressionPrinted fits level.next e) :
    ExpressionPrinted fits level e := by
  refine Prints.mono h ?_
  rintro ts ⟨e', he, hb⟩
  exact ⟨e', .tighter he, hb⟩

theorem printed_assign {name : Token} {value : Expr} (id : NodeId) (hg : name.Genuine)
    (hn : name.kind = .identifier) (hv : ExpressionPrinted fits .assignment value) :
    ExpressionPrinted fits .assignment (.assign id name value) := by
  have hname := prints_token hg
  rw [hn] at hname
  refine ((hname.append prints_equals ⟨_, _, rfl, rfl⟩).appendFree hv).mono ?_
  rintro _ ⟨_, ts, rfl, ⟨_, _, rfl, ⟨u, rfl, hu, -⟩, hmark⟩, v, hv, hb⟩
  obtain ⟨q, rfl, hq⟩ := hmark.one
  refine ⟨.assign 0 u v, .assign 0 ((kind_of_unlined hu).trans hn) (kind_of_fixed hq) hv, ?_⟩
  show Expr.assign 0 u.unlined v.bare = .assign 0 name.unlined value.bare
  rw [hu, hb]

theorem node_source (level : Level) (l r : Expr) (operator : Token) :
    (level.node l operator r).source = l.source ++ " " ++ operator.lexeme ++ " " ++ r.source := by
  cases level <;> rfl

theorem node_bare {level : Level} {l r l' r' : Expr} {operator operator' : Token}
    (hl : l'.bare = l.bare) (hr : r'.bare = r.bare) (ho : operator'.unlined = operator.unlined) :
    (level.node l' operator' r').bare = (level.node l operator r).bare := by
  have hbinary : Expr.binary l'.bare operator'.unlined r'.bare =
      .binary l.bare operator.unlined r.bare := by rw [hl, hr, ho]
  have hlogical : Expr.logical l'.bare operator'.unlined r'.bare =
      .logical l.bare operator.unlined r.bare := by rw [hl, hr, ho]
  cases level <;> first | exact hbinary | exact hlogical

theorem extendedBy_of_mem_operators {k : Kind} (h : k ∈ level.operators) :
    k.extendedBy ' ' = false := by
  have hall : ∀ k ∈ level.operators, k.extendedBy ' ' = false := by cases level <;> decide
  exact hall k h

theorem printed_operation {l r : Expr} {operator : Token} (hg : operator.Genuine)
    (ho : operator.kind ∈ level.operators) (hl : ExpressionPrinted fits level l)
    (hr : ExpressionPrinted fits level.next r) :
    ExpressionPrinted fits level (level.node l operator r) := by
  have hspace : (!operator.kind.extendedBy ' ') = true := by
    rw [extendedBy_of_mem_operators ho]
    rfl
  have hleft : Prints free (l.source ++ " ") _ := Prints.spaced hl rfl
  rw [ExpressionPrinted, node_source]
  refine (((hleft.appendFree (prints_token hg)).spaced hspace).appendFree hr).mono ?_
  rintro _ ⟨_, rs, rfl, ⟨ls, _, rfl, ⟨l', hl', hbl⟩, u, rfl, hu, -⟩, r', hr', hbr⟩
  refine ⟨level.node l' u r', ?_, node_bare hbl hbr hu⟩
  rw [List.append_assoc]
  exact .operation (kind_of_unlined hu ▸ ho) hl' hr'

theorem printed_unary {operator : Token} {e : Expr} (hg : operator.Genuine)
    (ho : operator.kind = .not ∨ operator.kind = .dash) (he : ExpressionPrinted fits .unary e) :
    ExpressionPrinted fits .unary (.unary operator e) := by
  have hopens : Opens (fun c => !operator.kind.extendedBy c) e.source := by
    obtain ⟨c, cs, hc, hne⟩ := he.opens
    refine ⟨c, cs, hc, ?_⟩
    rcases ho with ho | ho
    · rw [ho]
      exact hne
    · rw [ho]
      rfl
  refine ((prints_token hg).append he hopens).mono ?_
  rintro _ ⟨_, ts, rfl, ⟨u, rfl, hu, -⟩, e', he', hb⟩
  refine ⟨.unary u e', .unary (kind_of_unlined hu ▸ ho) he', ?_⟩
  show Expr.unary u.unlined e'.bare = .unary operator.unlined e.bare
  rw [hu, hb]

/-! ## Calls -/

theorem length_bareAll (es : List Expr) : (Expr.bareAll es).length = es.length := by
  induction es with
  | nil => rfl
  | cons e es ih => exact congrArg Nat.succ ih

theorem printed_argument {e : Expr} (h : ExpressionPrinted fits .assignment e) :
    ArgumentsPrinted fits [e] := by
  refine Prints.mono h ?_
  rintro ts ⟨e', he, hb⟩
  refine ⟨[e'], .one he, ?_⟩
  show [e'.bare] = [e.bare]
  rw [hb]

theorem printed_arguments {e : Expr} {es : List Expr} (h : ExpressionPrinted fits .assignment e)
    (hes : ArgumentsPrinted fits es) (hne : es ≠ []) : ArgumentsPrinted fits (e :: es) := by
  obtain ⟨d, ds, rfl⟩ := List.exists_cons_of_ne_nil hne
  have htext : ", ".intercalate (Expr.sourceAll (e :: d :: ds)) =
      e.source ++ ", " ++ ", ".intercalate (Expr.sourceAll (d :: ds)) :=
    String.intercalate_cons_cons
  rw [ArgumentsPrinted, htext]
  refine ((Prints.append h prints_comma ⟨_, _, rfl, rfl⟩).appendFree hes).mono ?_
  rintro _ ⟨_, us, rfl, ⟨ts, _, rfl, ⟨e', he, hb⟩, hmark⟩, es', hes', hbs⟩
  obtain ⟨c, rfl, hc⟩ := hmark.one
  refine ⟨e' :: es', ?_, ?_⟩
  · rw [List.append_assoc]
    exact .more (kind_of_fixed hc) he hes'
  · show e'.bare :: Expr.bareAll es' = e.bare :: Expr.bareAll (d :: ds)
    rw [hb, hbs]

theorem printed_noArguments : ArgumentListPrinted fits [] := by
  have hnil : Prints free "" (· = []) := prints_blanks rfl
  refine (hnil.weaken fun _ _ => rfl).mono ?_
  rintro _ rfl
  exact ⟨[], .none, rfl⟩

theorem printed_argumentList {es : List Expr} (h : ArgumentsPrinted fits es) :
    ArgumentListPrinted fits es := by
  refine Prints.mono h ?_
  rintro ts ⟨es', hes, hb⟩
  exact ⟨es', .some hes, hb⟩

theorem printed_call {callee : Expr} {paren : Token} {arguments : List Expr} (hg : paren.Genuine)
    (hp : paren.kind = .closeParen) (hc : ExpressionPrinted fits .call callee)
    (ha : ArgumentListPrinted fits arguments) (hf : fits arguments.length) :
    ExpressionPrinted fits .call (.call callee paren arguments) := by
  have hcall := Prints.append hc prints_opening ⟨_, _, rfl, rfl⟩
  have hclosing := prints_closing.weaken fun c (_ : clear c = true) => rfl
  refine (((hcall.appendFree ha).append hclosing ⟨_, _, rfl, rfl⟩)).mono ?_
  rintro _ ⟨_, _, rfl, ⟨_, as, rfl, ⟨ts, _, rfl, ⟨c', hc', hbc⟩, hopening⟩, as', has, hba⟩, hclosing⟩
  obtain ⟨o, rfl, ho⟩ := hopening.one
  obtain ⟨q, rfl, hq⟩ := hclosing.one
  have hlen : as'.length = arguments.length := by
    rw [← length_bareAll as', hba, length_bareAll]
  refine ⟨.call c' q as', ?_, ?_⟩
  · rw [List.append_assoc, List.append_assoc]
    exact .call (kind_of_fixed ho) (kind_of_fixed hq) hc' has (hlen ▸ hf)
  · have hparen : q.unlined = paren.unlined := hq.trans (unlined_eq_fixed hg hp rfl).symm
    show Expr.call c'.bare q.unlined (Expr.bareAll as') =
      .call callee.bare paren.unlined (Expr.bareAll arguments)
    rw [hbc, hparen, hba]

/-! ## Primary expressions -/

theorem printed_number {t : Token} (hg : t.Genuine) (hk : t.kind = .number)
    (hf : Number.isFinite (Read.numberOf t) = true) :
    ExpressionPrinted fits .primary (.constant (.number (Read.numberOf t))) := by
  obtain ⟨r, hr, hlit⟩ := hg.number_literal hk
  have hvalue : Read.numberOf t = Number.ofRank false r := by rw [Read.numberOf, hlit]
  rw [hvalue] at hf ⊢
  refine ((prints_token (Token.genuine_number hf hr 0)).weaken
    (clear_of_kind rfl Kind.noConfusion)).mono ?_
  rintro _ ⟨u, rfl, hu, -⟩
  have hvalue' : Read.numberOf u = Number.ofRank false r := by
    rw [Read.numberOf, literal_of_unlined hu]
  exact ⟨_, .number (kind_of_unlined hu), by rw [hvalue']⟩

theorem printed_string {t : Token} (hg : t.Genuine) (hk : t.kind = .string) :
    ExpressionPrinted fits .primary (.constant (.string (Read.stringOf t))) := by
  obtain ⟨s, ht⟩ := hg.string_literal hk
  have hvalue : Read.stringOf t = s := by rw [Read.stringOf, ht]
  have htext : t.lexeme = (Expr.constant (.string s)).source := by rw [ht]; rfl
  rw [hvalue, ExpressionPrinted, ← htext]
  refine ((prints_token hg).weaken (clear_of_kind (hk ▸ rfl) (by rw [hk]; decide))).mono ?_
  rintro _ ⟨u, rfl, hu, -⟩
  have hvalue' : Read.stringOf u = s := by rw [Read.stringOf, literal_of_unlined hu, ht]
  exact ⟨_, .string ((kind_of_unlined hu).trans hk), by rw [hvalue']⟩

theorem printed_constant {value : Constant} {k : Kind} (ht : k.text? = some value.source)
    (hk : k.startsExpression = true) (hne : k ≠ .not)
    (he : ∀ t, t.kind = k → Expression fits .primary [t] (.constant value)) :
    ExpressionPrinted fits .primary (.constant value) := by
  refine ((prints_fixed k ht).weaken (clear_of_kind hk hne)).mono ?_
  intro ts hts
  obtain ⟨t, rfl, ht⟩ := hts.one
  exact ⟨_, he t (kind_of_fixed ht), rfl⟩

theorem printed_read {name : Token} (id : NodeId) (hg : name.Genuine)
    (hn : name.kind = .identifier) : ExpressionPrinted fits .primary (.read id name) := by
  refine ((prints_token hg).weaken (clear_of_kind (hn ▸ rfl) (by rw [hn]; decide))).mono ?_
  rintro _ ⟨u, rfl, hu, -⟩
  refine ⟨.read 0 u, .read 0 ((kind_of_unlined hu).trans hn), ?_⟩
  show Expr.read 0 u.unlined = .read 0 name.unlined
  rw [hu]

theorem printed_grouping {e : Expr} (he : ExpressionPrinted fits .assignment e) :
    ExpressionPrinted fits .primary (.grouping e) := by
  have hclosing := prints_closing.weaken fun c (_ : clear c = true) => rfl
  refine ((prints_opening.appendFree he).append hclosing ⟨_, _, rfl, rfl⟩).mono ?_
  rintro _ ⟨_, _, rfl, ⟨_, ts, rfl, hopening, e', he', hb⟩, hclosing⟩
  obtain ⟨o, rfl, ho⟩ := hopening.one
  obtain ⟨c, rfl, hc⟩ := hclosing.one
  refine ⟨.grouping e', .grouping (kind_of_fixed ho) (kind_of_fixed hc) he', ?_⟩
  show Expr.grouping e'.bare = .grouping e.bare
  rw [hb]

theorem printed_lambda {keyword : Token} {params : List Token} {body : List Stmt}
    (hg : keyword.Genuine) (hk : keyword.kind = .funKw) (h : FunctionPrinted fits params body) :
    ExpressionPrinted fits .primary (.function keyword params body) := by
  have htext : (Expr.function keyword params body).source =
      "fun " ++ (parameterSource params ++ Stmt.blockSource 0 body) := String.append_assoc
  rw [ExpressionPrinted, htext]
  refine ((prints_fun.appendFree (h 0)).weaken fun _ _ => rfl).mono ?_
  rintro _ ⟨_, ts, rfl, hfun, params', body', hf, hps, hb⟩
  obtain ⟨q, rfl, hq⟩ := hfun.one
  have hkeyword : q.unlined = keyword.unlined := hq.trans (unlined_eq_fixed hg hk rfl).symm
  refine ⟨.function q params' body', .function (kind_of_fixed hq) hf, ?_⟩
  show Expr.function q.unlined (params'.map Token.unlined) (bareAll body') =
    .function keyword.unlined (params.map Token.unlined) (bareAll body)
  rw [hkeyword, hps, hb]

end LoxLang.Grammar
