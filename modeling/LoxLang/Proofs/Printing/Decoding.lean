import LoxLang.Proofs.Printing.Phrase
import LoxLang.Proofs.Printing.RoundTrip

/-!
The parenthesized form identifies the program.

In each tree that is read from a text, the head of the parenthesized form and the number of its parts
say which node it is, so reading the form gives the tree again, up to lines and node numbers, if its
numbers are finite.  There is one theorem for each kind of node; the tree is taken apart at the end
(`Program.statementsOf?_parenthesized`).  So trees with the same form are the same
(`Program.parenthesized_injective`).
-/

namespace LoxLang

open Phrase

/-! ## Trees that are read again -/

/-- Reading the parenthesized form gives the expression. -/
def Expr.Readable (e : Expr) : Prop :=
  ∃ p : Phrase, p.Written e.parenthesized ∧ p.value? = some e.bare

def Expr.ReadableAll (es : List Expr) : Prop :=
  ∃ ps, List.Forall₂ Written ps (Expr.parenthesizedAll es) ∧ values? ps = some (Expr.bareAll es)

/-- Reading the parenthesized form gives the statement. -/
def Stmt.Readable (s : Stmt) : Prop :=
  ∃ p : Phrase, p.Written s.parenthesized ∧ p.tree? = some s.bare

def Stmt.ReadableAll (ss : List Stmt) : Prop :=
  ∃ ps, List.Forall₂ Written ps (Stmt.parenthesizedAll ss) ∧ trees? ps = some (bareAll ss)

theorem Expr.ReadableAll.nil : Expr.ReadableAll [] := ⟨[], .nil, rfl⟩

theorem Expr.ReadableAll.cons {e : Expr} {es : List Expr} (h : e.Readable) (hs : Expr.ReadableAll es) :
    Expr.ReadableAll (e :: es) := by
  obtain ⟨p, hp, hvalue⟩ := h
  obtain ⟨ps, hps, hvalues⟩ := hs
  refine ⟨p :: ps, .cons hp hps, ?_⟩
  rw [values?] at hvalues ⊢
  rw [List.mapM_cons, hvalue, hvalues]
  rfl

theorem Stmt.ReadableAll.nil : Stmt.ReadableAll [] := ⟨[], .nil, rfl⟩

theorem Stmt.ReadableAll.cons {s : Stmt} {ss : List Stmt} (h : s.Readable) (hs : Stmt.ReadableAll ss) :
    Stmt.ReadableAll (s :: ss) := by
  obtain ⟨p, hp, htree⟩ := h
  obtain ⟨ps, hps, htrees⟩ := hs
  refine ⟨p :: ps, .cons hp hps, ?_⟩
  rw [trees?] at htrees ⊢
  rw [List.mapM_cons, htree, htrees]
  rfl

/-! ## Constants and names -/

theorem readable_token {t : Token} {e : Expr} (h : t.Genuine)
    (hk : t.kind ≠ .openParen ∧ t.kind ≠ .closeParen) (htext : e.parenthesized = t.lexeme)
    (he : operand? t.unlined = some e.bare) : e.Readable := by
  refine ⟨_, htext ▸ written_token h hk, ?_⟩
  rw [Phrase.value?, ofToken, he]
  rfl

theorem readable_constant {value : Constant} (h : value.MadeOf Token.Genuine)
    (hf : ∀ x ∈ value.numbers, Number.isFinite x = true) : (Expr.constant value).Readable := by
  cases value with
  | number x =>
    obtain ⟨t, ⟨hg, hk⟩, rfl⟩ := h
    obtain ⟨r, hr, hlit⟩ := hg.number_literal hk
    have hvalue : Read.numberOf t = Number.ofRank false r := by rw [Read.numberOf, hlit]
    rw [hvalue] at hf ⊢
    have hnumber := Token.genuine_number (hf _ List.mem_cons_self) hr 0
    exact readable_token hnumber ⟨Kind.noConfusion, Kind.noConfusion⟩ rfl rfl
  | string s =>
    obtain ⟨t, ⟨hg, hk⟩, rfl⟩ := h
    obtain ⟨s, ht⟩ := hg.string_literal hk
    have hvalue : Read.stringOf t = s := by rw [Read.stringOf, ht]
    rw [hvalue]
    rw [ht] at hg
    exact readable_token hg ⟨Kind.noConfusion, Kind.noConfusion⟩ rfl rfl
  | bool b =>
    cases b with
    | false => exact readable_token (Token.genuine_fixed (k := .falseKw) rfl 0) (by decide) rfl rfl
    | true => exact readable_token (Token.genuine_fixed (k := .trueKw) rfl 0) (by decide) rfl rfl
  | nil => exact readable_token (Token.genuine_fixed (k := .nilKw) rfl 0) (by decide) rfl rfl

theorem readable_read {name : Token} (id : NodeId) (h : name.Is Token.Genuine .identifier) :
    (Expr.read id name).Readable := by
  refine ⟨_, written_name h, ?_⟩
  have hkind : name.unlined.kind = .identifier := h.2
  rw [Phrase.value?, ofToken, operand?, hkind]
  rfl

/-! ## What heads make of their parts -/

namespace Phrase

variable {operator : Token} {e l r : Expr} {p q : Phrase}

theorem headed?_unary (h : operator.kind.Prefixes) (hp : p.value? = some e) :
    headed? operator [p] = some (.expression (.unary operator e)) := by
  have hunary : headed? operator [p] =
      p.value?.bind fun e => some (.expression (.unary operator e)) := by
    obtain ⟨kind, lexeme, literal, line⟩ := operator
    rcases Kind.Prefixes.not_or_dash h with rfl | rfl <;> rfl
  rw [hunary, hp]
  rfl

/-- With two parts, `-` is binary. -/
theorem headed?_binary (h : operator.kind.Joins) (hp : p.value? = some l)
    (hq : q.value? = some r) :
    headed? operator [p, q] = some (.expression (.binary l operator r)) := by
  have hbinary : headed? operator [p, q] =
      p.value?.bind fun l => q.value?.bind fun r => some (.expression (.binary l operator r)) := by
    obtain ⟨kind, lexeme, literal, line⟩ := operator
    cases kind <;> first | rfl | cases h
  rw [hbinary, hp, hq]
  rfl

theorem headed?_logical (h : operator.kind = .orKw ∨ operator.kind = .andKw)
    (hp : p.value? = some l) (hq : q.value? = some r) :
    headed? operator [p, q] = some (.expression (.logical l operator r)) := by
  have hlogical : headed? operator [p, q] =
      p.value?.bind fun l => q.value?.bind fun r => some (.expression (.logical l operator r)) := by
    obtain ⟨kind, lexeme, literal, line⟩ := operator
    rcases h with rfl | rfl <;> rfl
  rw [hlogical, hp, hq]
  rfl

/-- The phrase of a head and its parts stands for the tree that they make. -/
theorem Written.headed {head : Token} {text : String} {ps : List Phrase} {texts : List String}
    {s : Stmt} (h : (ofToken head).Written text) (hs : List.Forall₂ Written ps texts)
    (htree : headed? head ps = some s) :
    ∃ p : Phrase, p.Written (LoxLang.parenthesized text texts) ∧ p.tree? = some s :=
  ⟨_, h.parenthesized hs, htree⟩

/-- A text that stands for a statement of one expression stands for this expression. -/
theorem exists_value {text : String}
    (h : ∃ p : Phrase, p.Written text ∧ p.tree? = some (.expression e)) :
    ∃ p : Phrase, p.Written text ∧ p.value? = some e := by
  obtain ⟨p, hp, htree⟩ := h
  refine ⟨p, hp, ?_⟩
  rw [value?, htree]
  rfl

end Phrase

/-! ## Expressions with parts -/

section

variable {e l r : Expr} {operator : Token}

theorem readable_unary (hg : operator.Genuine) (ho : operator.kind.Prefixes) (he : e.Readable) :
    (Expr.unary operator e).Readable := by
  obtain ⟨p, hp, hvalue⟩ := he
  have hne : operator.kind ≠ .openParen ∧ operator.kind ≠ .closeParen := by
    rcases ho.not_or_dash with hk | hk <;> (rw [hk]; decide)
  exact exists_value ((written_token hg hne).headed (.cons hp .nil) (headed?_unary ho hvalue))

theorem readable_binary (hg : operator.Genuine) (ho : operator.kind.Joins) (hl : l.Readable)
    (hr : r.Readable) : (Expr.binary l operator r).Readable := by
  obtain ⟨p, hp, hleft⟩ := hl
  obtain ⟨q, hq, hright⟩ := hr
  have hne : operator.kind ≠ .openParen ∧ operator.kind ≠ .closeParen := by
    constructor <;> (intro hk; rw [hk] at ho; cases ho)
  exact exists_value ((written_token hg hne).headed (.cons hp (.cons hq .nil))
    (headed?_binary ho hleft hright))

theorem readable_logical (hg : operator.Genuine)
    (ho : operator.kind = .orKw ∨ operator.kind = .andKw) (hl : l.Readable) (hr : r.Readable) :
    (Expr.logical l operator r).Readable := by
  obtain ⟨p, hp, hleft⟩ := hl
  obtain ⟨q, hq, hright⟩ := hr
  have hne : operator.kind ≠ .openParen ∧ operator.kind ≠ .closeParen := by
    rcases ho with hk | hk <;> (rw [hk]; decide)
  exact exists_value ((written_token hg hne).headed (.cons hp (.cons hq .nil))
    (headed?_logical ho hleft hright))

theorem readable_grouping (he : e.Readable) : (Expr.grouping e).Readable := by
  obtain ⟨p, hp, hvalue⟩ := he
  have htree : headed? ⟨.identifier, "group", none, 0⟩ [p] =
      some (.expression (.grouping e.bare)) := by
    show p.value?.bind _ = _
    rw [hvalue]
    rfl
  exact exists_value ((written_word (by decide)).headed (.cons hp .nil) htree)

theorem readable_assign {name : Token} (id : NodeId) (h : name.Is Token.Genuine .identifier)
    (he : e.Readable) : (Expr.assign id name e).Readable := by
  obtain ⟨p, hp, hvalue⟩ := he
  have htree : headed? ⟨.identifier, "set", none, 0⟩ [ofToken name.unlined, p] =
      some (.expression (.assign 0 name.unlined e.bare)) := by
    show p.value?.bind _ = _
    rw [hvalue]
    rfl
  have hparts := List.Forall₂.cons (written_name h) (.cons hp .nil)
  exact exists_value ((written_word (by decide)).headed hparts htree)

theorem readable_call {paren : Token} {arguments : List Expr}
    (h : paren.Is Token.Genuine .closeParen) (he : e.Readable)
    (hargs : Expr.ReadableAll arguments) : (Expr.call e paren arguments).Readable := by
  obtain ⟨p, hp, hvalue⟩ := he
  obtain ⟨ps, hps, hvalues⟩ := hargs
  have hparen : paren.unlined = Kind.fixed .closeParen := unlined_eq_fixed h.1 h.2 rfl
  have htree : headed? ⟨.identifier, "call", none, 0⟩ (p :: ps) =
      some (.expression (.call e.bare paren.unlined (Expr.bareAll arguments))) := by
    show p.value?.bind _ = _
    rw [hvalue, hparen]
    show (values? ps).bind _ = _
    rw [hvalues]
    rfl
  exact exists_value ((written_word (by decide)).headed (.cons hp hps) htree)

theorem readable_lambda {keyword : Token} {params : List Token} {body : List Stmt}
    (h : keyword.Is Token.Genuine .funKw) (hparams : ∀ t ∈ params, t.Is Token.Genuine .identifier)
    (hbody : Stmt.ReadableAll body) : (Expr.function keyword params body).Readable := by
  obtain ⟨⟨_, names, tree⟩, hp, rfl, rfl⟩ := written_parameterList hparams
  obtain ⟨ps, hps, htrees⟩ := hbody
  have hkeyword : keyword.unlined = Kind.fixed .funKw := unlined_eq_fixed h.1 h.2 rfl
  have htree : headed? (Kind.fixed .funKw) (⟨none, some (params.map Token.unlined), tree⟩ :: ps) =
      some (.expression (.function keyword.unlined (params.map Token.unlined) (bareAll body))) := by
    show (trees? ps).bind _ = _
    rw [htrees, hkeyword]
    rfl
  have hfun : (ofToken (Kind.fixed .funKw)).Written "fun" := written_fixed rfl (by decide)
  exact exists_value (hfun.headed (.cons hp hps) htree)

end

/-! ## Statements -/

section

variable {e : Expr} {s t : Stmt}

theorem readable_expression (he : e.Readable) : (Stmt.expression e).Readable := by
  obtain ⟨p, hp, hvalue⟩ := he
  obtain ⟨tree, htree, hv⟩ := Option.bind_eq_some_iff.1 hvalue
  refine ⟨p, hp, ?_⟩
  cases tree with
  | expression value =>
    cases hv
    exact htree
  | _ => cases hv

theorem readable_print {keyword : Token} (h : keyword.Is Token.Genuine .printKw)
    (he : e.Readable) : (Stmt.print keyword e).Readable := by
  obtain ⟨p, hp, hvalue⟩ := he
  have hkeyword : keyword.unlined = Kind.fixed .printKw := unlined_eq_fixed h.1 h.2 rfl
  have htree : headed? (Kind.fixed .printKw) [p] = some (.print keyword.unlined e.bare) := by
    show p.value?.bind _ = _
    rw [hvalue, hkeyword]
    rfl
  exact (written_fixed rfl (by decide)).headed (.cons hp .nil) htree

theorem readable_var {name : Token} {initializer : Option Expr}
    (h : name.Is Token.Genuine .identifier) (he : ∀ e ∈ initializer, e.Readable) :
    (Stmt.var name initializer).Readable := by
  have hvar : (ofToken (Kind.fixed .varKw)).Written "var" := written_fixed rfl (by decide)
  cases initializer with
  | none => exact hvar.headed (.cons (written_name h) .nil) rfl
  | some e =>
    obtain ⟨p, hp, hvalue⟩ := he e rfl
    have htree : headed? (Kind.fixed .varKw) [ofToken name.unlined, p] =
        some (.var name.unlined (some e.bare)) := by
      show p.value?.bind _ = _
      rw [hvalue]
      rfl
    exact hvar.headed (.cons (written_name h) (.cons hp .nil)) htree

theorem readable_block {body : List Stmt} (h : Stmt.ReadableAll body) :
    (Stmt.block body).Readable := by
  obtain ⟨ps, hps, htrees⟩ := h
  have htree : headed? ⟨.identifier, "block", none, 0⟩ ps = some (.block (bareAll body)) := by
    show (trees? ps).bind _ = _
    rw [htrees]
    rfl
  exact (written_word (by decide)).headed hps htree

theorem readable_ifElse {elseBranch : Option Stmt} (he : e.Readable) (hs : s.Readable)
    (ht : ∀ t ∈ elseBranch, t.Readable) : (Stmt.ifElse e s elseBranch).Readable := by
  obtain ⟨p, hp, hvalue⟩ := he
  obtain ⟨q, hq, hthen⟩ := hs
  have hif : (ofToken (Kind.fixed .ifKw)).Written "if" := written_fixed rfl (by decide)
  cases elseBranch with
  | none =>
    have htree : headed? (Kind.fixed .ifKw) [p, q] = some (.ifElse e.bare s.bare none) := by
      show p.value?.bind _ = _
      rw [hvalue]
      show q.tree?.bind _ = _
      rw [hthen]
      rfl
    exact hif.headed (.cons hp (.cons hq .nil)) htree
  | some t =>
    obtain ⟨r, hr, helse⟩ := ht t rfl
    have htree : headed? (Kind.fixed .ifKw) [p, q, r] =
        some (.ifElse e.bare s.bare (some t.bare)) := by
      show p.value?.bind _ = _
      rw [hvalue]
      show q.tree?.bind _ = _
      rw [hthen]
      show r.tree?.bind _ = _
      rw [helse]
      rfl
    exact hif.headed (.cons hp (.cons hq (.cons hr .nil))) htree

theorem readable_while (he : e.Readable) (hs : s.Readable) : (Stmt.while e s).Readable := by
  obtain ⟨p, hp, hvalue⟩ := he
  obtain ⟨q, hq, hbody⟩ := hs
  have htree : headed? (Kind.fixed .whileKw) [p, q] = some (.while e.bare s.bare) := by
    show p.value?.bind _ = _
    rw [hvalue]
    show q.tree?.bind _ = _
    rw [hbody]
    rfl
  exact (written_fixed rfl (by decide)).headed (.cons hp (.cons hq .nil)) htree

theorem readable_function {name : Token} {params : List Token} {body : List Stmt}
    (h : name.Is Token.Genuine .identifier)
    (hparams : ∀ t ∈ params, t.Is Token.Genuine .identifier) (hbody : Stmt.ReadableAll body) :
    (Stmt.function name params body).Readable := by
  obtain ⟨p, hp, -, hnames⟩ := written_parameterList hparams
  obtain ⟨ps, hps, htrees⟩ := hbody
  have htree : headed? (Kind.fixed .funKw) (ofToken name.unlined :: p :: ps) =
      some (.function name.unlined (params.map Token.unlined) (bareAll body)) := by
    show p.names?.bind _ = _
    rw [hnames]
    show (trees? ps).bind _ = _
    rw [htrees]
    rfl
  exact (written_fixed rfl (by decide)).headed (.cons (written_name h) (.cons hp hps)) htree

theorem readable_return {keyword : Token} {value : Option Expr}
    (h : keyword.Is Token.Genuine .returnKw) (he : ∀ e ∈ value, e.Readable) :
    (Stmt.return keyword value).Readable := by
  have hreturn : (ofToken (Kind.fixed .returnKw)).Written "return" := written_fixed rfl (by decide)
  have hkeyword : keyword.unlined = Kind.fixed .returnKw := unlined_eq_fixed h.1 h.2 rfl
  cases value with
  | none =>
    have htree : headed? (Kind.fixed .returnKw) [] = some (.return keyword.unlined none) := by
      rw [hkeyword]
      rfl
    exact hreturn.headed .nil htree
  | some e =>
    obtain ⟨p, hp, hvalue⟩ := he e rfl
    have htree : headed? (Kind.fixed .returnKw) [p] =
        some (.return keyword.unlined (some e.bare)) := by
      show p.value?.bind _ = _
      rw [hvalue, hkeyword]
      rfl
    exact hreturn.headed (.cons hp .nil) htree

end

/-! ## Whole trees -/

section

open Grammar

mutual

theorem Expr.readable (e : Expr) (h : e.MadeOf Token.Genuine) (hf : Finites e.numbers) :
    e.Readable := by
  cases e with
  | constant value => exact readable_constant h hf
  | grouping inner => exact readable_grouping (inner.readable h hf)
  | unary operator operand => exact readable_unary h.1 h.2.1 (operand.readable h.2.2 hf)
  | binary left operator right =>
    obtain ⟨hg, ho, hl, hr⟩ := h
    obtain ⟨hfl, hfr⟩ := List.forall_mem_append.1 hf
    exact readable_binary hg ho (left.readable hl hfl) (right.readable hr hfr)
  | logical left operator right =>
    obtain ⟨hg, ho, hl, hr⟩ := h
    obtain ⟨hfl, hfr⟩ := List.forall_mem_append.1 hf
    exact readable_logical hg ho (left.readable hl hfl) (right.readable hr hfr)
  | read id name => exact readable_read id h
  | assign id name value => exact readable_assign id h.1 (value.readable h.2 hf)
  | call callee paren arguments =>
    obtain ⟨hp, hc, ha⟩ := h
    obtain ⟨hfc, hfa⟩ := List.forall_mem_append.1 hf
    exact readable_call hp (callee.readable hc hfc) (Expr.readableAll arguments ha hfa)
  | function keyword params body =>
    obtain ⟨hk, hp, hb⟩ := h
    exact readable_lambda hk hp (Stmt.readableAll body hb hf)
termination_by structural e

theorem Expr.readableAll (es : List Expr) (h : Expr.MadeOfAll Token.Genuine es)
    (hf : Finites (Expr.numbersAll es)) : Expr.ReadableAll es := by
  cases es with
  | nil => exact .nil
  | cons e es =>
    obtain ⟨hfe, hfes⟩ := List.forall_mem_append.1 hf
    exact .cons (e.readable h.1 hfe) (Expr.readableAll es h.2 hfes)
termination_by structural es

theorem Expr.readableOption (o : Option Expr) (h : Expr.MadeOfOption Token.Genuine o)
    (hf : Finites (Expr.numbersOption o)) : ∀ e ∈ o, e.Readable := by
  cases o with
  | none => exact fun _ he => nomatch he
  | some e =>
    intro e' he
    cases he
    exact e.readable h hf
termination_by structural o

theorem Stmt.readable (s : Stmt) (h : s.MadeOf Token.Genuine) (hf : Finites s.numbers) :
    s.Readable := by
  cases s with
  | expression value => exact readable_expression (value.readable h hf)
  | print keyword value => exact readable_print h.1 (value.readable h.2 hf)
  | var name initializer => exact readable_var h.1 (Expr.readableOption initializer h.2 hf)
  | block body => exact readable_block (Stmt.readableAll body h hf)
  | ifElse condition thenBranch elseBranch =>
    obtain ⟨hc, ht, he⟩ := h
    obtain ⟨hfc, hfrest⟩ := List.forall_mem_append.1 hf
    obtain ⟨hft, hfe⟩ := List.forall_mem_append.1 hfrest
    exact readable_ifElse (condition.readable hc hfc) (thenBranch.readable ht hft)
      (Stmt.readableOption elseBranch he hfe)
  | «while» condition body =>
    obtain ⟨hc, hb⟩ := h
    obtain ⟨hfc, hfb⟩ := List.forall_mem_append.1 hf
    exact readable_while (condition.readable hc hfc) (body.readable hb hfb)
  | function name params body =>
    obtain ⟨hn, hp, hb⟩ := h
    exact readable_function hn hp (Stmt.readableAll body hb hf)
  | «return» keyword value => exact readable_return h.1 (Expr.readableOption value h.2 hf)
termination_by structural s

theorem Stmt.readableAll (ss : List Stmt) (h : Stmt.MadeOfAll Token.Genuine ss)
    (hf : Finites (Stmt.numbersAll ss)) : Stmt.ReadableAll ss := by
  cases ss with
  | nil => exact .nil
  | cons s ss =>
    obtain ⟨hfs, hfss⟩ := List.forall_mem_append.1 hf
    exact .cons (s.readable h.1 hfs) (Stmt.readableAll ss h.2 hfss)
termination_by structural ss

theorem Stmt.readableOption (o : Option Stmt) (h : Stmt.MadeOfOption Token.Genuine o)
    (hf : Finites (Stmt.numbersOption o)) : ∀ s ∈ o, s.Readable := by
  cases o with
  | none => exact fun _ hs => nomatch hs
  | some s =>
    intro s' hs
    cases hs
    exact s.readable h hf
termination_by structural o

end

end

/-! ## Programs -/

/-- The lines of a program are read as its statements. -/
theorem Stmt.ReadableAll.statementsOf? {ss : List Stmt} (h : Stmt.ReadableAll ss) :
    statementsOf? (parenthesizedProgram ss) = some (bareAll ss) := by
  obtain ⟨ps, hps, htrees⟩ := h
  obtain ⟨ts, hread, hwrites⟩ : ∃ ts, (∀ parts rest, ts.foldl step (parts :: rest) =
      (ps.reverse ++ parts) :: rest) ∧ Writes ending 1 (parenthesizedProgram ss) ts :=
    writtenAll_intercalate "\n" rfl ⟨_, _, rfl, rfl⟩ hps 1
  have hspells : Spells 1 (parenthesizedProgram ss).toList ts := hwrites.spells
  have hphrases : ofTokens? ts = some ps := by
    rw [ofTokens?, hread, List.append_nil]
    exact congrArg some (List.reverse_reverse ps)
  rw [LoxLang.statementsOf?, hspells.beforeEof_ofText, hphrases]
  exact htrees

namespace Program

/-- Whatever a text is, the parenthesized form of the statements that were read from it is read as
these statements, up to lines and node numbers, if their numbers are finite. -/
theorem statementsOf?_parenthesized (source : String) (nextId : NodeId)
    (hfinite : ∀ x ∈ Stmt.numbersAll (ofTokens (Token.ofText source) nextId).statements,
      Number.isFinite x = true) :
    statementsOf? (parenthesizedProgram (ofTokens (Token.ofText source) nextId).statements) =
      some (bareAll (ofTokens (Token.ofText source) nextId).statements) :=
  (Stmt.readableAll _ (statements_madeOf (genuines_beforeEof source) nextId) hfinite).statementsOf?

/-- If the statements that were read from two texts, whatever these are, have the same parenthesized
form and only finite numbers, they are the same, up to lines and node numbers. -/
theorem parenthesized_injective (source source' : String) (nextId nextId' : NodeId)
    (hfinite : ∀ x ∈ Stmt.numbersAll (ofTokens (Token.ofText source) nextId).statements,
      Number.isFinite x = true)
    (hfinite' : ∀ x ∈ Stmt.numbersAll (ofTokens (Token.ofText source') nextId').statements,
      Number.isFinite x = true)
    (htext : parenthesizedProgram (ofTokens (Token.ofText source) nextId).statements =
      parenthesizedProgram (ofTokens (Token.ofText source') nextId').statements) :
    bareAll (ofTokens (Token.ofText source) nextId).statements =
      bareAll (ofTokens (Token.ofText source') nextId').statements := by
  have hread := statementsOf?_parenthesized source nextId hfinite
  rw [htext, statementsOf?_parenthesized source' nextId' hfinite'] at hread
  exact (Option.some.inj hread).symm

/-- A loop without clauses is the same program as one with a condition that always holds, on other
lines and with its number written in another way. -/
theorem parenthesized_injective_loop :
    let ss := (ofTokens (Token.ofText "for (;;) print 1 + f(\") (\");") 0).statements
    let ss' := (ofTokens (Token.ofText "while (true)\n  print 1.0 + f(\") (\");") 7).statements
    (∀ x ∈ Stmt.numbersAll ss, Number.isFinite x = true) ∧
      (∀ x ∈ Stmt.numbersAll ss', Number.isFinite x = true) ∧
      parenthesizedProgram ss = parenthesizedProgram ss' ∧ bareAll ss = bareAll ss' := by
  intro ss ss'
  have hfinite : ∀ x ∈ Stmt.numbersAll ss, Number.isFinite x = true := by decide +kernel
  have hfinite' : ∀ x ∈ Stmt.numbersAll ss', Number.isFinite x = true := by decide +kernel
  have htext : parenthesizedProgram ss = parenthesizedProgram ss' := by decide +kernel
  exact ⟨hfinite, hfinite', htext, parenthesized_injective _ _ 0 7 hfinite hfinite' htext⟩

end Program

end LoxLang
