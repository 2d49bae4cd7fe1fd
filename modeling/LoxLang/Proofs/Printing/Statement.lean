import LoxLang.Proofs.Printing.Expression

/-!
Printed statements are derived as they were.

As for expressions, there is one theorem for each rule of the grammar.  A `for` has become a `while`
in the tree and is derived as such (`printed_forLoop`).  The branch before an `else` is printed
without braces of its own; it does not end in an open `if`, and the printed branch does not either.
-/

namespace LoxLang.Grammar

variable (fits : Nat → Prop)

/-- The text of a statement, at any depth, is derived as the same statement. -/
def PrintedAs (P : List Token → Stmt → Prop) (s : Stmt) : Prop :=
  ∀ depth, Prints free (s.source depth) fun ts => ∃ s', P ts s' ∧ s'.bare = s.bare

/-- A statement that ends in an open `if` only if it may. -/
def StatementWithin (dangling : Bool) (ts : List Token) (s : Stmt) : Prop :=
  ∃ d, (d = true → dangling = true) ∧ Statement fits d ts s

def BlockPrinted (body : List Stmt) : Prop :=
  ∀ depth, Prints free (Stmt.blockSource depth body) fun ts =>
    ∃ body', Block fits ts body' ∧ bareAll body' = bareAll body

def LinesPrinted (ss : List Stmt) : Prop :=
  ∀ depth, Prints free (Stmt.linesSource depth ss) fun ts =>
    ∃ ss', Declarations fits ts ss' ∧ bareAll ss' = bareAll ss

def ClausePrinted (o : Option Expr) : Prop := ∀ e ∈ o, ExpressionPrinted fits .assignment e

def InitializerPrinted (o : Option Stmt) : Prop := ∀ s ∈ o, PrintedAs (Declaration fits) s

variable {fits}

/-! ## Texts of marks -/

theorem prints_semicolon : Prints free ";" (Fixed [.semicolon]) :=
  (prints_fixed .semicolon rfl).weaken fun _ _ => rfl

theorem prints_newline : Prints free "\n" (· = []) := prints_blanks rfl

theorem prints_if : Prints free "if (" (Fixed [.ifKw, .openParen]) := by
  have htext : "if (" = "if" ++ " " ++ "(" := by decide
  rw [htext]
  exact ((prints_fixed .ifKw rfl).spaced rfl).fixed prints_opening ⟨_, _, rfl, rfl⟩

theorem prints_while : Prints free "while (" (Fixed [.whileKw, .openParen]) := by
  have htext : "while (" = "while" ++ " " ++ "(" := by decide
  rw [htext]
  exact ((prints_fixed .whileKw rfl).spaced rfl).fixed prints_opening ⟨_, _, rfl, rfl⟩

theorem prints_else : Prints free " else " (Fixed [.elseKw]) :=
  ((prints_fixed .elseKw rfl).afterBlanks (b := " ") rfl).spaced rfl

theorem prints_braces : Prints free "\x7b\x7d" (Fixed [.openCurly, .closeCurly]) :=
  ((prints_fixed .openCurly rfl).fixed (prints_fixed .closeCurly rfl) ⟨_, _, rfl, rfl⟩).weaken
    fun _ _ => rfl

theorem prints_brace : Prints free "\x7b\n" (Fixed [.openCurly]) := by
  refine ((prints_fixed .openCurly rfl).append prints_newline ⟨_, _, rfl, rfl⟩).mono ?_
  rintro _ ⟨us, _, rfl, hu, rfl⟩
  rwa [List.append_nil]

/-! ## Lists of statements -/

theorem printed_nil : LinesPrinted fits [] := by
  intro depth
  have hnil : Prints free "" (· = []) := prints_blanks rfl
  refine hnil.mono ?_
  rintro _ rfl
  exact ⟨[], .nil, rfl⟩

theorem printed_cons {s : Stmt} {ss : List Stmt} (h : PrintedAs (Declaration fits) s)
    (hs : LinesPrinted fits ss) : LinesPrinted fits (s :: ss) := by
  intro depth
  refine ((((prints_indentation depth).appendFree (h depth)).appendFree
    prints_newline).appendFree (hs depth)).mono ?_
  rintro _ ⟨_, us, rfl, ⟨_, _, rfl, ⟨_, ts, rfl, rfl, s', hs, hb⟩, rfl⟩, ss', hss, hbs⟩
  refine ⟨s' :: ss', ?_, ?_⟩
  · rw [List.nil_append, List.append_nil]
    exact .cons hs hss
  · show s'.bare :: bareAll ss' = s.bare :: bareAll ss
    rw [hb, hbs]

theorem blockSource_cons (depth : Nat) (s : Stmt) (ss : List Stmt) :
    Stmt.blockSource depth (s :: ss) =
      "\x7b\n" ++ Stmt.linesSource (depth + 1) (s :: ss) ++ (indentation depth ++ "\x7d") := by
  simp only [Stmt.blockSource, Stmt.linesSource, String.append_assoc]

theorem printed_block {body : List Stmt} (h : LinesPrinted fits body) : BlockPrinted fits body := by
  intro depth
  cases body with
  | nil =>
    refine prints_braces.mono ?_
    intro ts hts
    obtain ⟨t, u, rfl, ht, hu⟩ := hts.two
    exact ⟨[], .mk (kind_of_fixed ht) (kind_of_fixed hu) .nil, rfl⟩
  | cons s ss =>
    have hclosing : Prints free "\x7d" (Fixed [.closeCurly]) :=
      (prints_fixed .closeCurly rfl).weaken fun _ _ => rfl
    rw [blockSource_cons]
    refine ((prints_brace.appendFree (h (depth + 1))).appendFree
      ((prints_indentation depth).appendFree hclosing)).mono ?_
    rintro _ ⟨_, _, rfl, ⟨_, ts, rfl, hopening, ss', hds, hb⟩, _, _, rfl, rfl, hclosing⟩
    obtain ⟨o, rfl, ho⟩ := hopening.one
    obtain ⟨c, rfl, hc⟩ := hclosing.one
    exact ⟨ss', .mk (kind_of_fixed ho) (kind_of_fixed hc) hds, hb⟩

/-! ## Functions -/

theorem printed_parameters {ts params : List Token} (h : Parameters ts params)
    (hg : ∀ t ∈ params, t.Genuine) :
    Prints (fun c => !inWord c) (", ".intercalate (params.map (·.lexeme))) fun us =>
      ∃ params', Parameters us params' ∧
        params'.map Token.unlined = params.map Token.unlined := by
  induction h with
  | @one name hn =>
    have hname := prints_token (hg name List.mem_cons_self)
    rw [hn] at hname
    refine hname.mono ?_
    rintro _ ⟨u, rfl, hu, -⟩
    refine ⟨[u], .one ((kind_of_unlined hu).trans hn), ?_⟩
    show [u.unlined] = [name.unlined]
    rw [hu]
  | @more name comma ts names hn hc hps ih =>
    have hname := prints_token (hg name List.mem_cons_self)
    rw [hn] at hname
    have hrest := ih fun t ht => hg t (List.mem_cons_of_mem _ ht)
    obtain ⟨d, ds, rfl⟩ : ∃ d ds, names = d :: ds := by
      cases hps with
      | one => exact ⟨_, _, rfl⟩
      | more => exact ⟨_, _, rfl⟩
    have htext : ", ".intercalate ((name :: d :: ds).map (·.lexeme)) =
        name.lexeme ++ ", " ++ ", ".intercalate ((d :: ds).map (·.lexeme)) :=
      String.intercalate_cons_cons
    rw [htext]
    refine ((hname.append prints_comma ⟨_, _, rfl, rfl⟩).appendFree hrest).mono ?_
    rintro _ ⟨_, us, rfl, ⟨_, _, rfl, ⟨u, rfl, hu, -⟩, hmark⟩, params', hps', hb⟩
    obtain ⟨c, rfl, hc⟩ := hmark.one
    refine ⟨u :: params', .more ((kind_of_unlined hu).trans hn) (kind_of_fixed hc) hps', ?_⟩
    show u.unlined :: params'.map Token.unlined = name.unlined :: (d :: ds).map Token.unlined
    rw [hu, hb]

theorem printed_parameterList {ts params : List Token} (h : ParameterList ts params)
    (hg : ∀ t ∈ params, t.Genuine) :
    Prints (fun c => !inWord c) (", ".intercalate (params.map (·.lexeme))) fun us =>
      ∃ params', ParameterList us params' ∧
        params'.map Token.unlined = params.map Token.unlined := by
  cases h with
  | none =>
    have hnil : Prints free "" (· = []) := prints_blanks rfl
    refine (hnil.weaken fun _ _ => rfl).mono ?_
    rintro _ rfl
    exact ⟨[], .none, rfl⟩
  | some hps =>
    refine (printed_parameters hps hg).mono ?_
    rintro us ⟨params', hps', hb⟩
    exact ⟨params', .some hps', hb⟩

theorem printed_function {ts params : List Token} {body : List Stmt} (h : ParameterList ts params)
    (hg : ∀ t ∈ params, t.Genuine) (hf : fits params.length) (hb : BlockPrinted fits body) :
    FunctionPrinted fits params body := by
  intro depth
  have hclosing : Prints free ") " (Fixed [.closeParen]) :=
    (prints_fixed .closeParen rfl).spaced rfl
  refine (((prints_opening.appendFree (printed_parameterList h hg)).append hclosing
    ⟨_, _, rfl, rfl⟩).appendFree (hb depth)).mono ?_
  rintro _ ⟨_, us, rfl, ⟨_, _, rfl, ⟨_, ps, rfl, hopening, params', hps, hbp⟩, hclosing⟩, body', hblock,
    hbb⟩
  obtain ⟨o, rfl, ho⟩ := hopening.one
  obtain ⟨c, rfl, hc⟩ := hclosing.one
  have hlen : params'.length = params.length := by
    rw [← List.length_map Token.unlined, hbp, List.length_map]
  refine ⟨params', body', ?_, hbp, hbb⟩
  rw [List.append_assoc, List.append_assoc]
  exact .mk (kind_of_fixed ho) (kind_of_fixed hc) hps (hlen ▸ hf) hblock

/-! ## Declarations -/

theorem printed_functionDeclaration {name : Token} {params : List Token} {body : List Stmt}
    (hg : name.Genuine) (hn : name.kind = .identifier) (h : FunctionPrinted fits params body) :
    PrintedAs (Declaration fits) (.function name params body) := by
  intro depth
  have hopens : Opens (fun c => !name.kind.extendedBy c)
      (parameterSource params ++ Stmt.blockSource depth body) := by
    rw [Opens, parameterSource]
    simp only [String.toList_append, List.append_assoc]
    exact ⟨'(', _, rfl, by rw [hn]; rfl⟩
  have htext : (Stmt.function name params body).source depth =
      "fun " ++ name.lexeme ++ (parameterSource params ++ Stmt.blockSource depth body) :=
    String.append_assoc
  rw [htext]
  refine (((prints_fun.appendFree (prints_token hg)).append (h depth) hopens)).mono ?_
  rintro _ ⟨_, ts, rfl, ⟨_, _, rfl, hfun, u, rfl, hu, -⟩, params', body', hf, hps, hb⟩
  obtain ⟨q, rfl, hq⟩ := hfun.one
  refine ⟨.function u params' body', ?_, ?_⟩
  · exact .function (kind_of_fixed hq) ((kind_of_unlined hu).trans hn) hf
  · show Stmt.function u.unlined (params'.map Token.unlined) (bareAll body') =
      .function name.unlined (params.map Token.unlined) (bareAll body)
    rw [hu, hps, hb]

theorem printed_varDeclaration {s : Stmt} (h : PrintedAs (VarDeclaration fits) s) :
    PrintedAs (Declaration fits) s := by
  intro depth
  refine (h depth).mono ?_
  rintro ts ⟨s', hs, hb⟩
  exact ⟨s', .var hs, hb⟩

theorem printed_statementDeclaration {dangling : Bool} {s : Stmt}
    (h : PrintedAs (StatementWithin fits dangling) s) : PrintedAs (Declaration fits) s := by
  intro depth
  refine (h depth).mono ?_
  rintro ts ⟨s', ⟨d, -, hs⟩, hb⟩
  exact ⟨s', .statement hs, hb⟩

theorem prints_var {name : Token} (hg : name.Genuine) :
    Prints (fun c => !name.kind.extendedBy c) ("var " ++ name.lexeme) fun ts =>
      ∃ keyword u, ts = [keyword, u] ∧ keyword.kind = .varKw ∧ u.unlined = name.unlined := by
  have hvar : Prints free "var " (Fixed [.varKw]) := (prints_fixed .varKw rfl).spaced rfl
  refine (hvar.appendFree (prints_token hg)).mono ?_
  rintro _ ⟨_, _, rfl, hkeyword, u, rfl, hu, -⟩
  obtain ⟨k, rfl, hk⟩ := hkeyword.one
  exact ⟨k, u, rfl, kind_of_fixed hk, hu⟩

theorem printed_unset {name : Token} (hg : name.Genuine) (hn : name.kind = .identifier) :
    PrintedAs (VarDeclaration fits) (.var name none) := by
  intro depth
  have htext : (Stmt.var name none).source depth = "var " ++ name.lexeme ++ ";" := by
    show "var " ++ name.lexeme ++ "" ++ ";" = _
    rw [String.append_empty]
  rw [htext]
  refine ((prints_var hg).append prints_semicolon ⟨_, _, rfl, by rw [hn]; rfl⟩).mono ?_
  rintro _ ⟨_, _, rfl, ⟨k, u, rfl, hk, hu⟩, hmark⟩
  obtain ⟨q, rfl, hq⟩ := hmark.one
  refine ⟨.var u none, .unset hk ((kind_of_unlined hu).trans hn) (kind_of_fixed hq), ?_⟩
  show Stmt.var u.unlined none = .var name.unlined none
  rw [hu]

theorem printed_set {name : Token} {value : Expr} (hg : name.Genuine) (hn : name.kind = .identifier)
    (h : ExpressionPrinted fits .assignment value) :
    PrintedAs (VarDeclaration fits) (.var name (some value)) := by
  intro depth
  have htext : (Stmt.var name (some value)).source depth =
      "var " ++ name.lexeme ++ " = " ++ value.source ++ ";" := by
    show "var " ++ name.lexeme ++ (" = " ++ value.source) ++ ";" = _
    rw [← String.append_assoc]
  rw [htext]
  refine ((((prints_var hg).append prints_equals ⟨_, _, rfl, by rw [hn]; rfl⟩).appendFree h).append
    prints_semicolon ⟨_, _, rfl, rfl⟩).mono ?_
  rintro _ ⟨_, _, rfl, ⟨_, ts, rfl, ⟨_, _, rfl, ⟨k, u, rfl, hk, hu⟩, hequals⟩, v, hv, hb⟩, hmark⟩
  obtain ⟨e, rfl, he⟩ := hequals.one
  obtain ⟨q, rfl, hq⟩ := hmark.one
  refine ⟨.var u (some v), ?_, ?_⟩
  · exact .set hk ((kind_of_unlined hu).trans hn) (kind_of_fixed he) (kind_of_fixed hq) hv
  · show Stmt.var u.unlined (some v.bare) = .var name.unlined (some value.bare)
    rw [hu, hb]

/-! ## Statements -/

theorem printed_expressionStatement {e : Expr} (h : ExpressionPrinted fits .assignment e) :
    PrintedAs (ExpressionStatement fits) (.expression e) := by
  intro depth
  refine (Prints.append h prints_semicolon ⟨_, _, rfl, rfl⟩).mono ?_
  rintro _ ⟨ts, _, rfl, ⟨e', he, hb⟩, hmark⟩
  obtain ⟨q, rfl, hq⟩ := hmark.one
  refine ⟨.expression e', .mk (kind_of_fixed hq) he, ?_⟩
  show Stmt.expression e'.bare = .expression e.bare
  rw [hb]

theorem printed_plain {dangling : Bool} {s : Stmt} (h : PrintedAs (ExpressionStatement fits) s) :
    PrintedAs (StatementWithin fits dangling) s := by
  intro depth
  refine (h depth).mono ?_
  rintro ts ⟨s', hs, hb⟩
  exact ⟨s', ⟨false, Bool.noConfusion, .expression hs⟩, hb⟩

theorem printed_print {dangling : Bool} {keyword : Token} {value : Expr} (hg : keyword.Genuine)
    (hk : keyword.kind = .printKw) (h : ExpressionPrinted fits .assignment value) :
    PrintedAs (StatementWithin fits dangling) (.print keyword value) := by
  intro depth
  have hprint : Prints free "print " (Fixed [.printKw]) := (prints_fixed .printKw rfl).spaced rfl
  refine ((hprint.appendFree h).append prints_semicolon ⟨_, _, rfl, rfl⟩).mono ?_
  rintro _ ⟨_, _, rfl, ⟨_, ts, rfl, hkeyword, v, hv, hb⟩, hmark⟩
  obtain ⟨p, rfl, hp⟩ := hkeyword.one
  obtain ⟨q, rfl, hq⟩ := hmark.one
  have hsame : p.unlined = keyword.unlined := hp.trans (unlined_eq_fixed hg hk rfl).symm
  refine ⟨.print p v, ⟨false, Bool.noConfusion, .print (kind_of_fixed hp) (kind_of_fixed hq) hv⟩, ?_⟩
  show Stmt.print p.unlined v.bare = .print keyword.unlined value.bare
  rw [hsame, hb]

theorem printed_return {dangling : Bool} {keyword : Token} {value : Option Expr}
    (hg : keyword.Genuine) (hk : keyword.kind = .returnKw) (h : ClausePrinted fits value) :
    PrintedAs (StatementWithin fits dangling) (.return keyword value) := by
  intro depth
  have hreturn := prints_fixed .returnKw rfl
  cases value with
  | none =>
    have htext : (Stmt.return keyword none).source depth = "return" ++ ";" := rfl
    rw [htext]
    refine (hreturn.append prints_semicolon ⟨_, _, rfl, rfl⟩).mono ?_
    rintro _ ⟨_, _, rfl, hkeyword, hmark⟩
    obtain ⟨p, rfl, hp⟩ := hkeyword.one
    obtain ⟨q, rfl, hq⟩ := hmark.one
    have hsame : p.unlined = keyword.unlined := hp.trans (unlined_eq_fixed hg hk rfl).symm
    refine ⟨.return p none,
      ⟨false, Bool.noConfusion, .return (kind_of_fixed hp) (kind_of_fixed hq) .none⟩, ?_⟩
    show Stmt.return p.unlined none = .return keyword.unlined none
    rw [hsame]
  | some value =>
    have hvalue := h value rfl
    have htext : (Stmt.return keyword (some value)).source depth =
        "return" ++ " " ++ value.source ++ ";" := by
      show "return" ++ (" " ++ value.source) ++ ";" = _
      rw [← String.append_assoc]
    rw [htext]
    refine (((hreturn.spaced rfl).appendFree hvalue).append prints_semicolon
      ⟨_, _, rfl, rfl⟩).mono ?_
    rintro _ ⟨_, _, rfl, ⟨_, ts, rfl, hkeyword, v, hv, hb⟩, hmark⟩
    obtain ⟨p, rfl, hp⟩ := hkeyword.one
    obtain ⟨q, rfl, hq⟩ := hmark.one
    have hsame : p.unlined = keyword.unlined := hp.trans (unlined_eq_fixed hg hk rfl).symm
    refine ⟨.return p (some v),
      ⟨false, Bool.noConfusion, .return (kind_of_fixed hp) (kind_of_fixed hq) (.some hv)⟩, ?_⟩
    show Stmt.return p.unlined (some v.bare) = .return keyword.unlined (some value.bare)
    rw [hsame, hb]

theorem printed_blockStatement {dangling : Bool} {body : List Stmt} (h : BlockPrinted fits body) :
    PrintedAs (StatementWithin fits dangling) (.block body) := by
  intro depth
  refine (h depth).mono ?_
  rintro ts ⟨body', hblock, hb⟩
  refine ⟨.block body', ⟨false, Bool.noConfusion, .block hblock⟩, ?_⟩
  show Stmt.block (bareAll body') = .block (bareAll body)
  rw [hb]

/-- The part of an `if` or a `while` before its body. -/
theorem prints_head {k : Kind} {text : String} {condition : Expr}
    (hk : Prints free text (Fixed [k, .openParen]))
    (hc : ExpressionPrinted fits .assignment condition) :
    Prints free (text ++ condition.source ++ ") ") fun ts =>
      ∃ keyword opening cs closing condition', ts = keyword :: opening :: (cs ++ [closing]) ∧
        keyword.kind = k ∧ opening.kind = .openParen ∧ closing.kind = .closeParen ∧
        Expression fits .assignment cs condition' ∧ condition'.bare = condition.bare := by
  have hclosing : Prints free ") " (Fixed [.closeParen]) :=
    (prints_fixed .closeParen rfl).spaced rfl
  refine ((hk.appendFree hc).append hclosing ⟨_, _, rfl, rfl⟩).mono ?_
  rintro _ ⟨_, _, rfl, ⟨_, cs, rfl, hhead, c, hc, hb⟩, hmark⟩
  obtain ⟨keyword, opening, rfl, hkeyword, hopening⟩ := hhead.two
  obtain ⟨closing, rfl, hclosing⟩ := hmark.one
  exact ⟨keyword, opening, cs, closing, c, rfl, kind_of_fixed hkeyword, kind_of_fixed hopening,
    kind_of_fixed hclosing, hc, hb⟩

theorem printed_ifThen {dangling : Bool} {condition : Expr} {s : Stmt}
    (hc : ExpressionPrinted fits .assignment condition)
    (hs : PrintedAs (StatementWithin fits dangling) s) :
    PrintedAs (StatementWithin fits true) (.ifElse condition s none) := by
  intro depth
  have htext : (Stmt.ifElse condition s none).source depth =
      "if (" ++ condition.source ++ ") " ++ s.source depth := by
    show "if (" ++ condition.source ++ ") " ++ s.source depth ++ "" = _
    rw [String.append_empty]
  rw [htext]
  refine ((prints_head prints_if hc).appendFree (hs depth)).mono ?_
  rintro _ ⟨_, ts, rfl, ⟨k, o, cs, q, c, rfl, hk, ho, hq, hc, hbc⟩, s', ⟨d, -, hs⟩, hbs⟩
  refine ⟨.ifElse c s' none, ⟨true, fun _ => rfl, ?_⟩, ?_⟩
  · rw [List.cons_append, List.cons_append, List.append_assoc]
    exact .ifThen hk ho hq hc hs
  · show Stmt.ifElse c.bare s'.bare none = .ifElse condition.bare s.bare none
    rw [hbc, hbs]

theorem printed_ifElse {dangling : Bool} {condition : Expr} {s t : Stmt}
    (hc : ExpressionPrinted fits .assignment condition)
    (hs : PrintedAs (StatementWithin fits false) s)
    (ht : PrintedAs (StatementWithin fits dangling) t) :
    PrintedAs (StatementWithin fits dangling) (.ifElse condition s (some t)) := by
  intro depth
  have htext : (Stmt.ifElse condition s (some t)).source depth =
      "if (" ++ condition.source ++ ") " ++ s.source depth ++ " else " ++ t.source depth := by
    show "if (" ++ condition.source ++ ") " ++ s.source depth ++ (" else " ++ t.source depth) = _
    rw [← String.append_assoc]
  rw [htext]
  refine ((((prints_head prints_if hc).appendFree (hs depth)).appendFree prints_else).appendFree
    (ht depth)).mono ?_
  rintro _ ⟨_, us, rfl, ⟨_, _, rfl, ⟨_, ts, rfl, ⟨k, o, cs, q, c, rfl, hk, ho, hq, hc, hbc⟩, s',
    ⟨d, hd, hs⟩, hbs⟩, helse⟩, t', ⟨d', hd', ht⟩, hbt⟩
  obtain ⟨e, rfl, he⟩ := helse.one
  have hfalse : d = false := by
    cases d with
    | false => rfl
    | true => exact absurd (hd rfl) Bool.noConfusion
  refine ⟨.ifElse c s' (some t'), ⟨d', hd', ?_⟩, ?_⟩
  · have hderived := Statement.ifElse hk ho hq (kind_of_fixed he) hc (hfalse ▸ hs) ht
    simpa only [List.cons_append, List.append_assoc, List.nil_append] using hderived
  · show Stmt.ifElse c.bare s'.bare (some t'.bare) =
      .ifElse condition.bare s.bare (some t.bare)
    rw [hbc, hbs, hbt]

theorem printed_while {dangling : Bool} {condition : Expr} {s : Stmt}
    (hc : ExpressionPrinted fits .assignment condition)
    (hs : PrintedAs (StatementWithin fits dangling) s) :
    PrintedAs (StatementWithin fits dangling) (.while condition s) := by
  intro depth
  refine ((prints_head prints_while hc).appendFree (hs depth)).mono ?_
  rintro _ ⟨_, ts, rfl, ⟨k, o, cs, q, c, rfl, hk, ho, hq, hc, hbc⟩, s', ⟨d, hd, hs⟩, hbs⟩
  refine ⟨.while c s', ⟨d, hd, ?_⟩, ?_⟩
  · rw [List.cons_append, List.cons_append, List.append_assoc]
    exact .while hk ho hq hc hs
  · show Stmt.while c.bare s'.bare = .while condition.bare s.bare
    rw [hbc, hbs]

/-! ## Loops with clauses -/

/-- A condition that was left out is printed as `true`. -/
theorem printed_condition {o : Option Expr} (h : ClausePrinted fits o) :
    ExpressionPrinted fits .assignment (o.getD (.constant (.bool true))) := by
  cases o with
  | some e => exact h e rfl
  | none =>
    have htrue : ExpressionPrinted fits .primary (.constant (.bool true)) :=
      printed_constant (k := .trueKw) rfl rfl (by decide) fun t ht => .true ht
    refine Prints.mono htrue ?_
    rintro ts ⟨e, he, hb⟩
    exact ⟨e, he.loosen (by decide), hb⟩

theorem printed_pair {s t : Stmt} (hs : PrintedAs (Declaration fits) s)
    (ht : PrintedAs (Declaration fits) t) (dangling : Bool) :
    PrintedAs (StatementWithin fits dangling) (.block [s, t]) :=
  printed_blockStatement (printed_block (printed_cons hs (printed_cons ht printed_nil)))

theorem printed_forLoop {dangling : Bool} {initializer : Option Stmt}
    {condition increment : Option Expr} {s : Stmt} (hi : InitializerPrinted fits initializer)
    (hc : ClausePrinted fits condition) (he : ClausePrinted fits increment)
    (hs : PrintedAs (StatementWithin fits dangling) s) :
    PrintedAs (StatementWithin fits dangling) (forLoop initializer condition increment s) := by
  have hcondition := printed_condition hc
  have hbody : ∀ e ∈ increment,
      PrintedAs (StatementWithin fits dangling) (.block [s, .expression e]) := by
    intro e hmem
    have hplain : PrintedAs (StatementWithin fits dangling) (.expression e) :=
      printed_plain (printed_expressionStatement (he e hmem))
    exact printed_pair (printed_statementDeclaration hs) (printed_statementDeclaration hplain) _
  cases initializer with
  | none =>
    cases increment with
    | none => exact printed_while hcondition hs
    | some e => exact printed_while hcondition (hbody e rfl)
  | some i =>
    have hinitializer := hi i rfl
    cases increment with
    | none =>
      exact printed_pair hinitializer
        (printed_statementDeclaration (printed_while hcondition hs)) dangling
    | some e =>
      exact printed_pair hinitializer
        (printed_statementDeclaration (printed_while hcondition (hbody e rfl))) dangling

end LoxLang.Grammar
