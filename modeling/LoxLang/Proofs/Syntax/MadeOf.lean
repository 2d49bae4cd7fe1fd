import LoxLang.Proofs.Syntax.Lawful
import LoxLang.Proofs.Syntax.Relabel
import LoxLang.Proofs.Syntax.StatementDerivation

/-!
What a tree has of the tokens that it was read from.

A tree is made of tokens with some property if each of its tokens has this property, and is of a kind
that its place asks for, and if each of its numbers and strings is what such a token denotes.  Every
tree that the grammar derives is made of the tokens that it is derived from
(`Grammar.declarations_madeOf`), so whatever is read from tokens is (`Program.statements_madeOf`).

The operators of such a tree are lawful (`Program.statements_lawful`).  None of its tokens is a number
or a string, so a change of these changes nothing in it (`Stmt.relabelAll_congr`).
-/

namespace LoxLang

/-- A token with the property `p`, and of the kind `k`. -/
abbrev Token.Is (p : Token → Prop) (k : Kind) (t : Token) : Prop := p t ∧ t.kind = k

/-- Numbers and strings are what tokens denote. -/
def Constant.MadeOf (p : Token → Prop) : Constant → Prop
  | .number x => ∃ t : Token, t.Is p .number ∧ Read.numberOf t = x
  | .string s => ∃ t : Token, t.Is p .string ∧ Read.stringOf t = s
  | .bool _ => True
  | .nil => True

section

variable (p : Token → Prop)

mutual

def Expr.MadeOf : Expr → Prop
  | .constant value => value.MadeOf p
  | .grouping inner => inner.MadeOf
  | .unary operator operand => p operator ∧ operator.kind.Prefixes ∧ operand.MadeOf
  | .binary left operator right =>
    p operator ∧ operator.kind.Joins ∧ left.MadeOf ∧ right.MadeOf
  | .logical left operator right =>
    p operator ∧ (operator.kind = .orKw ∨ operator.kind = .andKw) ∧ left.MadeOf ∧ right.MadeOf
  | .read _ name => name.Is p .identifier
  | .assign _ name value => name.Is p .identifier ∧ value.MadeOf
  | .call callee paren arguments =>
    paren.Is p .closeParen ∧ callee.MadeOf ∧ Expr.MadeOfAll arguments
  | .function keyword params body =>
    keyword.Is p .funKw ∧ (∀ t ∈ params, t.Is p .identifier) ∧ Stmt.MadeOfAll body
termination_by structural e => e

def Expr.MadeOfAll : List Expr → Prop
  | [] => True
  | e :: es => e.MadeOf ∧ Expr.MadeOfAll es
termination_by structural es => es

def Expr.MadeOfOption : Option Expr → Prop
  | none => True
  | some e => e.MadeOf
termination_by structural o => o

def Stmt.MadeOf : Stmt → Prop
  | .expression value => value.MadeOf
  | .print keyword value => keyword.Is p .printKw ∧ value.MadeOf
  | .var name initializer => name.Is p .identifier ∧ Expr.MadeOfOption initializer
  | .block body => Stmt.MadeOfAll body
  | .ifElse condition thenBranch elseBranch =>
    condition.MadeOf ∧ thenBranch.MadeOf ∧ Stmt.MadeOfOption elseBranch
  | .while condition body => condition.MadeOf ∧ body.MadeOf
  | .function name params body =>
    name.Is p .identifier ∧ (∀ t ∈ params, t.Is p .identifier) ∧ Stmt.MadeOfAll body
  | .return keyword value => keyword.Is p .returnKw ∧ Expr.MadeOfOption value
termination_by structural s => s

def Stmt.MadeOfAll : List Stmt → Prop
  | [] => True
  | s :: ss => s.MadeOf ∧ Stmt.MadeOfAll ss
termination_by structural ss => ss

def Stmt.MadeOfOption : Option Stmt → Prop
  | none => True
  | some s => s.MadeOf
termination_by structural o => o

end

end

/-! ## Derived trees -/

namespace Grammar

variable {fits : Nat → Prop} {p : Token → Prop}

theorem Parameters.madeOf {ts params : List Token} (h : Parameters ts params)
    (hp : ∀ t ∈ ts, p t) : ∀ t ∈ params, t.Is p .identifier := by
  induction h with
  | one hn =>
    rw [List.forall_mem_singleton] at hp ⊢
    exact ⟨hp, hn⟩
  | more hn _ _ ih =>
    rw [List.forall_mem_cons, List.forall_mem_cons] at hp
    exact List.forall_mem_cons.2 ⟨⟨hp.1, hn⟩, ih hp.2.2⟩

theorem ParameterList.madeOf {ts params : List Token} (h : ParameterList ts params)
    (hp : ∀ t ∈ ts, p t) : ∀ t ∈ params, t.Is p .identifier := by
  cases h with
  | none => exact fun t ht => nomatch ht
  | some hps => exact hps.madeOf hp

theorem madeOf_node {level : Level} {l r : Expr} {operator : Token} (hp : p operator)
    (ho : operator.kind ∈ level.operators) (hl : l.MadeOf p) (hr : r.MadeOf p) :
    (level.node l operator r).MadeOf p := by
  have hbinary : level ≠ .logicOr → level ≠ .logicAnd → (Expr.binary l operator r).MadeOf p :=
    fun hor hand => ⟨hp, joins_of_mem_operators level hor hand _ ho, hl, hr⟩
  cases level with
  | logicOr => exact ⟨hp, .inl (List.mem_singleton.1 ho), hl, hr⟩
  | logicAnd => exact ⟨hp, .inr (List.mem_singleton.1 ho), hl, hr⟩
  | _ => exact hbinary (by decide) (by decide)

theorem madeOf_forLoop {initializer : Option Stmt} {condition increment : Option Expr} {s : Stmt}
    (hi : ∀ i ∈ initializer, i.MadeOf p) (hc : Expr.MadeOfOption p condition)
    (he : Expr.MadeOfOption p increment) (hs : s.MadeOf p) :
    (forLoop initializer condition increment s).MadeOf p := by
  have hcondition : (condition.getD (.constant (.bool true))).MadeOf p := by
    cases condition with
    | none => exact trivial
    | some c => exact hc
  cases initializer with
  | none =>
    cases increment with
    | none => exact ⟨hcondition, hs⟩
    | some e => exact ⟨hcondition, hs, he, trivial⟩
  | some i =>
    cases increment with
    | none => exact ⟨hi i rfl, ⟨hcondition, hs⟩, trivial⟩
    | some e => exact ⟨hi i rfl, ⟨hcondition, hs, he, trivial⟩, trivial⟩

mutual

theorem expression_madeOf {level : Level} {ts : List Token} {e : Expr}
    (h : Expression fits level ts e) : (∀ t ∈ ts, p t) → e.MadeOf p :=
  match h with
  | .assign _ hn _ hv => fun hp => by
    simp only [List.forall_mem_cons] at hp
    exact ⟨⟨hp.1, hn⟩, expression_madeOf hv hp.2.2⟩
  | .operation ho hl hr => fun hp => by
    simp only [List.forall_mem_append, List.forall_mem_cons] at hp
    exact madeOf_node hp.2.1 ho (expression_madeOf hl hp.1) (expression_madeOf hr hp.2.2)
  | .unary ho he => fun hp => by
    simp only [List.forall_mem_cons] at hp
    exact ⟨hp.1, prefixes_of_or ho, expression_madeOf he hp.2⟩
  | .call _ hc hl has _ => fun hp => by
    simp only [List.forall_mem_append, List.forall_mem_cons] at hp
    exact ⟨⟨hp.2.2.2.1, hc⟩, expression_madeOf hl hp.1, argumentList_madeOf has hp.2.2.1⟩
  | .number ht => fun hp => ⟨_, ⟨hp _ List.mem_cons_self, ht⟩, rfl⟩
  | .string ht => fun hp => ⟨_, ⟨hp _ List.mem_cons_self, ht⟩, rfl⟩
  | .true _ | .false _ | .nil _ => fun _ => trivial
  | .read _ hn => fun hp => ⟨hp _ List.mem_cons_self, hn⟩
  | .grouping _ _ he => fun hp => by
    simp only [List.forall_mem_append, List.forall_mem_cons] at hp
    exact (expression_madeOf he hp.2.1 :)
  | .function hk hf => fun hp => by
    simp only [List.forall_mem_cons] at hp
    exact ⟨⟨hp.1, hk⟩, function_madeOf hf hp.2⟩
  | .tighter he => expression_madeOf he
termination_by structural h

theorem argumentList_madeOf {ts : List Token} {es : List Expr} (h : ArgumentList fits ts es) :
    (∀ t ∈ ts, p t) → Expr.MadeOfAll p es :=
  match h with
  | .none => fun _ => trivial
  | .some has => arguments_madeOf has
termination_by structural h

theorem arguments_madeOf {ts : List Token} {es : List Expr} (h : Arguments fits ts es) :
    (∀ t ∈ ts, p t) → Expr.MadeOfAll p es :=
  match h with
  | .one he => fun hp => ⟨expression_madeOf he hp, trivial⟩
  | .more _ he hes => fun hp => by
    simp only [List.forall_mem_append, List.forall_mem_cons] at hp
    exact ⟨expression_madeOf he hp.1, arguments_madeOf hes hp.2.2⟩
termination_by structural h

theorem function_madeOf {ts params : List Token} {body : List Stmt}
    (h : Function fits ts params body) :
    (∀ t ∈ ts, p t) → (∀ t ∈ params, t.Is p .identifier) ∧ Stmt.MadeOfAll p body :=
  match h with
  | .mk _ _ hps _ hb => fun hp => by
    simp only [List.forall_mem_append, List.forall_mem_cons] at hp
    exact ⟨hps.madeOf hp.2.1, block_madeOf hb hp.2.2.2⟩
termination_by structural h

theorem block_madeOf {ts : List Token} {body : List Stmt} (h : Block fits ts body) :
    (∀ t ∈ ts, p t) → Stmt.MadeOfAll p body :=
  match h with
  | .mk _ _ hds => fun hp => by
    simp only [List.forall_mem_append, List.forall_mem_cons] at hp
    exact declarations_madeOf hds hp.2.1
termination_by structural h

theorem declarations_madeOf {ts : List Token} {ss : List Stmt} (h : Declarations fits ts ss) :
    (∀ t ∈ ts, p t) → Stmt.MadeOfAll p ss :=
  match h with
  | .nil => fun _ => trivial
  | .cons hd hs => fun hp => by
    rw [List.forall_mem_append] at hp
    exact ⟨declaration_madeOf hd hp.1, declarations_madeOf hs hp.2⟩
termination_by structural h

theorem declaration_madeOf {ts : List Token} {s : Stmt} (h : Declaration fits ts s) :
    (∀ t ∈ ts, p t) → s.MadeOf p :=
  match h with
  | .function _ hn hf => fun hp => by
    simp only [List.forall_mem_cons] at hp
    exact ⟨⟨hp.2.1, hn⟩, function_madeOf hf hp.2.2⟩
  | .var hv => varDeclaration_madeOf hv
  | .statement hs => statement_madeOf hs
termination_by structural h

theorem varDeclaration_madeOf {ts : List Token} {s : Stmt} (h : VarDeclaration fits ts s) :
    (∀ t ∈ ts, p t) → s.MadeOf p :=
  match h with
  | .unset _ hn _ => fun hp => by
    simp only [List.forall_mem_cons] at hp
    exact ⟨⟨hp.2.1, hn⟩, trivial⟩
  | .set _ hn _ _ he => fun hp => by
    simp only [List.forall_mem_append, List.forall_mem_cons] at hp
    exact ⟨⟨hp.2.1, hn⟩, expression_madeOf he hp.2.2.2.1⟩
termination_by structural h

theorem expressionStatement_madeOf {ts : List Token} {s : Stmt}
    (h : ExpressionStatement fits ts s) : (∀ t ∈ ts, p t) → s.MadeOf p :=
  match h with
  | .mk _ he => fun hp => by
    rw [List.forall_mem_append] at hp
    exact (expression_madeOf he hp.1 :)
termination_by structural h

theorem clause_madeOf {ts : List Token} {o : Option Expr} (h : Clause fits ts o) :
    (∀ t ∈ ts, p t) → Expr.MadeOfOption p o :=
  match h with
  | .none => fun _ => trivial
  | .some he => (expression_madeOf he :)
termination_by structural h

theorem initializer_madeOf {ts : List Token} {o : Option Stmt} (h : Initializer fits ts o) :
    (∀ t ∈ ts, p t) → ∀ i ∈ o, i.MadeOf p :=
  match h with
  | .none _ => fun _ _ hi => nomatch hi
  | .var hv => fun hp i hi => by
    cases hi
    exact varDeclaration_madeOf hv hp
  | .expression he => fun hp i hi => by
    cases hi
    exact expressionStatement_madeOf he hp
termination_by structural h

theorem statement_madeOf {dangling : Bool} {ts : List Token} {s : Stmt}
    (h : Statement fits dangling ts s) : (∀ t ∈ ts, p t) → s.MadeOf p :=
  match h with
  | .expression he => expressionStatement_madeOf he
  | .print hk _ he => fun hp => by
    simp only [List.forall_mem_append, List.forall_mem_cons] at hp
    exact ⟨⟨hp.1, hk⟩, expression_madeOf he hp.2.1⟩
  | .return hk _ hc => fun hp => by
    simp only [List.forall_mem_append, List.forall_mem_cons] at hp
    exact ⟨⟨hp.1, hk⟩, clause_madeOf hc hp.2.1⟩
  | .block hb => (block_madeOf hb :)
  | .ifThen _ _ _ hc hs => fun hp => by
    simp only [List.forall_mem_append, List.forall_mem_cons] at hp
    exact ⟨expression_madeOf hc hp.2.2.1, statement_madeOf hs hp.2.2.2.2, trivial⟩
  | .ifElse _ _ _ _ hc hs ht => fun hp => by
    simp only [List.forall_mem_append, List.forall_mem_cons] at hp
    exact ⟨expression_madeOf hc hp.2.2.1, statement_madeOf hs hp.2.2.2.2.1,
      statement_madeOf ht hp.2.2.2.2.2.2⟩
  | .while _ _ _ hc hs => fun hp => by
    simp only [List.forall_mem_append, List.forall_mem_cons] at hp
    exact ⟨expression_madeOf hc hp.2.2.1, statement_madeOf hs hp.2.2.2.2⟩
  | .for _ _ _ _ hi hc he hs => fun hp => by
    simp only [List.forall_mem_append, List.forall_mem_cons] at hp
    exact madeOf_forLoop (initializer_madeOf hi hp.2.2.1) (clause_madeOf hc hp.2.2.2.1)
      (clause_madeOf he hp.2.2.2.2.2.1) (statement_madeOf hs hp.2.2.2.2.2.2.2)
termination_by structural h

end

end Grammar

/-- What is read from tokens with a property is made of tokens with it. -/
theorem Program.statements_madeOf {p : Token → Prop} {tokens : List Token}
    (hp : ∀ t ∈ beforeEof tokens, p t) (nextId : NodeId) :
    Stmt.MadeOfAll p (ofTokens tokens nextId).statements := by
  obtain ⟨kept, hkept, hderived⟩ := statements_derived tokens nextId
  exact Grammar.declarations_madeOf hderived fun t ht => hp t (hkept.subset ht)

/-! ## Lawful trees -/

section

variable {p : Token → Prop}

mutual

theorem Expr.lawful_of_madeOf (e : Expr) (h : e.MadeOf p) : e.Lawful := by
  cases e with
  | constant value => exact trivial
  | grouping inner => exact inner.lawful_of_madeOf h
  | unary operator operand => exact ⟨h.2.1, operand.lawful_of_madeOf h.2.2⟩
  | binary left operator right =>
    exact ⟨h.2.1, left.lawful_of_madeOf h.2.2.1, right.lawful_of_madeOf h.2.2.2⟩
  | logical left operator right =>
    exact ⟨left.lawful_of_madeOf h.2.2.1, right.lawful_of_madeOf h.2.2.2⟩
  | read id name => exact trivial
  | assign id name value => exact value.lawful_of_madeOf h.2
  | call callee paren arguments =>
    exact ⟨callee.lawful_of_madeOf h.2.1, Expr.lawfulAll_of_madeOf arguments h.2.2⟩
  | function keyword params body => exact Stmt.lawfulAll_of_madeOf body h.2.2
termination_by structural e

theorem Expr.lawfulAll_of_madeOf (es : List Expr) (h : Expr.MadeOfAll p es) :
    Expr.LawfulAll es := by
  cases es with
  | nil => exact trivial
  | cons e es => exact ⟨e.lawful_of_madeOf h.1, Expr.lawfulAll_of_madeOf es h.2⟩
termination_by structural es

theorem Expr.lawfulOption_of_madeOf (o : Option Expr) (h : Expr.MadeOfOption p o) :
    Expr.LawfulOption o := by
  cases o with
  | none => exact trivial
  | some e => exact e.lawful_of_madeOf h
termination_by structural o

theorem Stmt.lawful_of_madeOf (s : Stmt) (h : s.MadeOf p) : s.Lawful := by
  cases s with
  | expression value => exact value.lawful_of_madeOf h
  | print keyword value => exact value.lawful_of_madeOf h.2
  | var name initializer => exact Expr.lawfulOption_of_madeOf initializer h.2
  | block body => exact Stmt.lawfulAll_of_madeOf body h
  | ifElse condition thenBranch elseBranch =>
    exact ⟨condition.lawful_of_madeOf h.1, thenBranch.lawful_of_madeOf h.2.1,
      Stmt.lawfulBranch_of_madeOf elseBranch h.2.2⟩
  | «while» condition body => exact ⟨condition.lawful_of_madeOf h.1, body.lawful_of_madeOf h.2⟩
  | function name params body => exact Stmt.lawfulAll_of_madeOf body h.2.2
  | «return» keyword value => exact Expr.lawfulOption_of_madeOf value h.2
termination_by structural s

theorem Stmt.lawfulAll_of_madeOf (ss : List Stmt) (h : Stmt.MadeOfAll p ss) :
    Stmt.LawfulAll ss := by
  cases ss with
  | nil => exact trivial
  | cons s ss => exact ⟨s.lawful_of_madeOf h.1, Stmt.lawfulAll_of_madeOf ss h.2⟩
termination_by structural ss

theorem Stmt.lawfulBranch_of_madeOf (o : Option Stmt) (h : Stmt.MadeOfOption p o) :
    Stmt.LawfulBranch o := by
  cases o with
  | none => exact trivial
  | some s => exact s.lawful_of_madeOf h
termination_by structural o

end

end

/-- Whatever the tokens are, what is read from them is lawful. -/
theorem Program.statements_lawful (tokens : List Token) (nextId : NodeId) :
    Stmt.LawfulAll (ofTokens tokens nextId).statements :=
  Stmt.lawfulAll_of_madeOf (p := fun _ => True) _ (statements_madeOf (fun _ _ => trivial) nextId)

/-! ## Changes that such a tree does not show -/

theorem Kind.Prefixes.ne_literal {k : Kind} : k.Prefixes → k ≠ .number ∧ k ≠ .string := by
  cases k <;> decide

theorem Kind.Joins.ne_literal {k : Kind} : k.Joins → k ≠ .number ∧ k ≠ .string := by
  cases k <;> decide

section Congruence

set_option linter.unusedSectionVars false

variable {p : Token → Prop} {f f' : Token → Token}
  (hf : ∀ t, p t → t.kind ≠ .number ∧ t.kind ≠ .string → f t = f' t) (g : NodeId → NodeId)

include hf

theorem Token.Is.congr {t : Token} {k : Kind} (h : t.Is p k) (hk : k ≠ .number ∧ k ≠ .string) :
    f t = f' t := hf t h.1 (h.2 ▸ hk)

theorem map_congr_of_is {k : Kind} {ts : List Token} (h : ∀ t ∈ ts, t.Is p k)
    (hk : k ≠ .number ∧ k ≠ .string) : ts.map f = ts.map f' :=
  List.map_congr_left fun t ht => (h t ht).congr hf hk

mutual

theorem Expr.relabel_congr (e : Expr) (h : e.MadeOf p) : e.relabel f g = e.relabel f' g := by
  cases e with
  | constant value => rfl
  | grouping inner => simp only [Expr.relabel, inner.relabel_congr h]
  | unary operator operand =>
    simp only [Expr.relabel, hf operator h.1 h.2.1.ne_literal, operand.relabel_congr h.2.2]
  | binary left operator right =>
    simp only [Expr.relabel, hf operator h.1 h.2.1.ne_literal, left.relabel_congr h.2.2.1,
      right.relabel_congr h.2.2.2]
  | logical left operator right =>
    have hkind : operator.kind ≠ .number ∧ operator.kind ≠ .string := by
      rcases h.2.1 with ho | ho <;> (rw [ho]; decide)
    simp only [Expr.relabel, hf operator h.1 hkind, left.relabel_congr h.2.2.1,
      right.relabel_congr h.2.2.2]
  | read id name => simp only [Expr.relabel, Token.Is.congr hf h (by decide)]
  | assign id name value =>
    simp only [Expr.relabel, h.1.congr hf (by decide), value.relabel_congr h.2]
  | call callee paren arguments =>
    simp only [Expr.relabel, h.1.congr hf (by decide), callee.relabel_congr h.2.1,
      Expr.relabelAll_congr arguments h.2.2]
  | function keyword params body =>
    simp only [Expr.relabel, h.1.congr hf (by decide), map_congr_of_is hf h.2.1 (by decide),
      Stmt.relabelAll_congr body h.2.2]
termination_by structural e

theorem Expr.relabelAll_congr (es : List Expr) (h : Expr.MadeOfAll p es) :
    Expr.relabelAll f g es = Expr.relabelAll f' g es := by
  cases es with
  | nil => rfl
  | cons e es => simp only [Expr.relabelAll, e.relabel_congr h.1, Expr.relabelAll_congr es h.2]
termination_by structural es

theorem Expr.relabelOption_congr (o : Option Expr) (h : Expr.MadeOfOption p o) :
    Expr.relabelOption f g o = Expr.relabelOption f' g o := by
  cases o with
  | none => rfl
  | some e => simp only [Expr.relabelOption, e.relabel_congr h]
termination_by structural o

theorem Stmt.relabel_congr (s : Stmt) (h : s.MadeOf p) : s.relabel f g = s.relabel f' g := by
  cases s with
  | expression value => simp only [Stmt.relabel, value.relabel_congr h]
  | print keyword value =>
    simp only [Stmt.relabel, h.1.congr hf (by decide), value.relabel_congr h.2]
  | var name initializer =>
    simp only [Stmt.relabel, h.1.congr hf (by decide), Expr.relabelOption_congr initializer h.2]
  | block body => simp only [Stmt.relabel, Stmt.relabelAll_congr body h]
  | ifElse condition thenBranch elseBranch =>
    simp only [Stmt.relabel, condition.relabel_congr h.1, thenBranch.relabel_congr h.2.1,
      Stmt.relabelOption_congr elseBranch h.2.2]
  | «while» condition body =>
    simp only [Stmt.relabel, condition.relabel_congr h.1, body.relabel_congr h.2]
  | function name params body =>
    simp only [Stmt.relabel, h.1.congr hf (by decide), map_congr_of_is hf h.2.1 (by decide),
      Stmt.relabelAll_congr body h.2.2]
  | «return» keyword value =>
    simp only [Stmt.relabel, h.1.congr hf (by decide), Expr.relabelOption_congr value h.2]
termination_by structural s

theorem Stmt.relabelAll_congr (ss : List Stmt) (h : Stmt.MadeOfAll p ss) :
    Stmt.relabelAll f g ss = Stmt.relabelAll f' g ss := by
  cases ss with
  | nil => rfl
  | cons s ss => simp only [Stmt.relabelAll, s.relabel_congr h.1, Stmt.relabelAll_congr ss h.2]
termination_by structural ss

theorem Stmt.relabelOption_congr (o : Option Stmt) (h : Stmt.MadeOfOption p o) :
    Stmt.relabelOption f g o = Stmt.relabelOption f' g o := by
  cases o with
  | none => rfl
  | some s => simp only [Stmt.relabelOption, s.relabel_congr h]
termination_by structural o

end

end Congruence

end LoxLang
