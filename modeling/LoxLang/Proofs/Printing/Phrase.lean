import LoxLang.Proofs.Printing.Expression
import LoxLang.Proofs.Printing.Spacing
import LoxLang.Proofs.Syntax.MadeOf
import LoxLang.Syntax.Parenthesized
import Mathlib.Data.List.Forall2

/-!
Reading the parenthesized form.

A text in parenthesized form is cut into tokens like any other text, and these are read from left to
right with a stack of the lists that are still open (`Phrase.step`).  When a list is closed, it is
settled at once what it may stand for: the names of some parameters, or the tree that its head and
its parts make (`Phrase.headed?`).

`Phrase.Written p text` says that reading the text puts the phrase `p` on the list that is open, and
changes nothing else.  Tokens are written as what they are (`Phrase.written_token`), and a list with
blanks between its parts as the phrase that they make (`Phrase.WrittenAll.list`).
-/

namespace LoxLang

/-- The expression that a statement consists of. -/
def Stmt.value? : Stmt → Option Expr
  | .expression value => some value
  | _ => none

/-- What a token or a list stands for: a token, some names, a tree.  The tree of an expression is
that of the statement that consists of it. -/
structure Phrase where
  token? : Option Token
  names? : Option (List Token)
  tree? : Option Stmt

namespace Phrase

/-! ## What phrases stand for -/

def value? (p : Phrase) : Option Expr := p.tree?.bind Stmt.value?

def values? (ps : List Phrase) : Option (List Expr) := ps.mapM value?

def trees? (ps : List Phrase) : Option (List Stmt) := ps.mapM tree?

/-- A token is an expression by itself, if it is any. -/
def operand? (t : Token) : Option Expr :=
  match t.kind with
  | .number => some (.constant (.number (Read.numberOf t)))
  | .string => some (.constant (.string (Read.stringOf t)))
  | .trueKw => some (.constant (.bool true))
  | .falseKw => some (.constant (.bool false))
  | .nilKw => some (.constant .nil)
  | .identifier => some (.read 0 t)
  | _ => none

def ofToken (t : Token) : Phrase := ⟨some t, none, (operand? t).map .expression⟩

/-- The tree that begins with a word that is no keyword. -/
def named? (word : String) (parts : List Phrase) : Option Stmt :=
  match word, parts with
  | "group", [inner] => return .expression (.grouping (← inner.value?))
  | "set", [name, value] => return .expression (.assign 0 (← name.token?) (← value.value?))
  | "call", callee :: arguments =>
    return .expression (.call (← callee.value?) (Kind.fixed .closeParen) (← values? arguments))
  | "block", body => return .block (← trees? body)
  | _, _ => none

/-- The function whose parts are given: a declaration has its name before the parameters. -/
def function? (keyword : Token) (parts : List Phrase) : Option Stmt :=
  match parts with
  | ⟨some name, _, _⟩ :: params :: body => return .function name (← params.names?) (← trees? body)
  | ⟨none, params, _⟩ :: body => return .expression (.function keyword (← params) (← trees? body))
  | _ => none

/-- The tree of a list with the given head. -/
def headed? (head : Token) (parts : List Phrase) : Option Stmt :=
  match head.kind, parts with
  | .identifier, parts => named? head.lexeme parts
  | .funKw, parts => function? head parts
  | .printKw, [value] => return .print head (← value.value?)
  | .varKw, [name] => return .var (← name.token?) none
  | .varKw, [name, value] => return .var (← name.token?) (some (← value.value?))
  | .ifKw, [condition, thenBranch] =>
    return .ifElse (← condition.value?) (← thenBranch.tree?) none
  | .ifKw, [condition, thenBranch, elseBranch] =>
    return .ifElse (← condition.value?) (← thenBranch.tree?) (some (← elseBranch.tree?))
  | .whileKw, [condition, body] => return .while (← condition.value?) (← body.tree?)
  | .returnKw, [] => some (.return head none)
  | .returnKw, [value] => return .return head (some (← value.value?))
  | .orKw, [left, right] | .andKw, [left, right] =>
    return .expression (.logical (← left.value?) head (← right.value?))
  -- every other head is an operator, and the number of its operands says which
  | _, [operand] => return .expression (.unary head (← operand.value?))
  | _, [left, right] => return .expression (.binary (← left.value?) head (← right.value?))
  | _, _ => none

/-- What a list of phrases stands for. -/
def ofParts (parts : List Phrase) : Phrase where
  token? := none
  names? := parts.mapM token?
  tree? :=
    match parts with
    | ⟨some head, _, _⟩ :: parts => headed? head parts
    | _ => none

/-! ## Reading -/

/-- The innermost list is closed, and becomes a part of the one around it. -/
def close (parts : List Phrase) : List (List Phrase) → List (List Phrase)
  | [] => []
  | outer :: rest => (ofParts parts.reverse :: outer) :: rest

/-- One token further, with the parts of each open list in reverse, those of the innermost one
first. -/
def step (stack : List (List Phrase)) (t : Token) : List (List Phrase) :=
  match stack with
  | [] => []
  | parts :: rest =>
    if t.kind = .openParen then [] :: parts :: rest
    else if t.kind = .closeParen then close parts rest
    else (ofToken t.unlined :: parts) :: rest

/-- The phrases that tokens make, if no list is left open. -/
def ofTokens? (tokens : List Token) : Option (List Phrase) :=
  match tokens.foldl step [[]] with
  | [parts] => some parts.reverse
  | _ => none

end Phrase

/-- The statements that a text in parenthesized form stands for. -/
def statementsOf? (text : String) : Option (List Stmt) := do
  Phrase.trees? (← Phrase.ofTokens? (beforeEof (Token.ofText text)))

/-! ## Texts of phrases -/

/-- What may follow a phrase. -/
def ending (c : Char) : Bool := Text.isBlank c || c == ')'

theorem Kind.extendedBy_of_ending (k : Kind) {c : Char} (h : ending c = true) :
    k.extendedBy c = false := by
  rw [ending, Bool.or_eq_true, beq_iff_eq] at h
  rcases h with h | rfl
  · exact k.extendedBy_of_isBlank h
  · cases k <;> rfl

namespace Phrase

/-- The text adds the phrase to the list that is open. -/
def Written (p : Phrase) (text : String) : Prop :=
  Prints ending text fun ts => ∀ parts rest, ts.foldl step (parts :: rest) = (p :: parts) :: rest

/-- The text adds the phrases, one after the other, to the list that is open. -/
def WrittenAll (ps : List Phrase) (text : String) : Prop :=
  Prints ending text fun ts =>
    ∀ parts rest, ts.foldl step (parts :: rest) = (ps.reverse ++ parts) :: rest

/-- A token that is no parenthesis. -/
theorem written_token {t : Token} (h : t.Genuine)
    (hk : t.kind ≠ .openParen ∧ t.kind ≠ .closeParen) : (ofToken t.unlined).Written t.lexeme := by
  have htoken := (prints_token h).weaken fun c hc => by
    rw [t.kind.extendedBy_of_ending hc]
    rfl
  refine htoken.mono ?_
  rintro _ ⟨u, rfl, hu, -⟩ parts rest
  have hkind : u.kind = t.kind := kind_of_unlined hu
  show step (parts :: rest) u = _
  rw [step, hkind, if_neg hk.1, if_neg hk.2, hu]

theorem written_fixed {k : Kind} {text : String} (h : k.text? = some text)
    (hk : k ≠ .openParen ∧ k ≠ .closeParen) : (ofToken k.fixed).Written text := by
  have hfixed : k.fixed = ⟨k, text, none, 0⟩ := by rw [Kind.fixed, h]; rfl
  rw [hfixed]
  exact written_token (Token.genuine_fixed h 0) hk

/-- The words that head lists and are no keywords. -/
theorem written_word {word : String} (h : word ∈ ["group", "set", "call", "block"]) :
    (ofToken ⟨.identifier, word, none, 0⟩).Written word := by
  have hwords : ∀ w ∈ ["group", "set", "call", "block"], Kind.ofWord w = .identifier ∧
      w.toList.head?.any startsWord ∧ w.toList.all inWord := by decide
  obtain ⟨hk, hstart, hall⟩ := hwords word h
  have hgenuine := Token.genuine_word hstart hall 0
  rw [hk] at hgenuine
  exact written_token hgenuine ⟨Kind.noConfusion, Kind.noConfusion⟩

/-- Phrases with blanks between them. -/
theorem writtenAll_intercalate (sep : String) (hblank : sep.toList.all Text.isBlank = true)
    (hopens : Opens ending sep) {ps : List Phrase} {texts : List String}
    (h : List.Forall₂ Written ps texts) : WrittenAll ps (sep.intercalate texts) := by
  induction h with
  | nil =>
    have hnil : Prints free "" (· = []) := prints_blanks rfl
    refine (hnil.weaken fun _ _ => rfl).mono ?_
    rintro _ rfl parts rest
    rfl
  | @cons p text ps texts hp hps ih =>
    cases texts with
    | nil =>
      cases hps
      have htext : sep.intercalate [text] = text := String.intercalate_singleton
      rw [htext]
      exact hp
    | cons next texts =>
      have htext : sep.intercalate (text :: next :: texts) =
          text ++ sep ++ sep.intercalate (next :: texts) := String.intercalate_cons_cons
      rw [WrittenAll, htext]
      refine ((Prints.append hp (prints_blanks hblank) hopens).appendFree ih).mono ?_
      rintro _ ⟨_, vs, rfl, ⟨us, _, rfl, hus, rfl⟩, hvs⟩ parts rest
      rw [List.append_nil, List.foldl_append, hus, hvs, List.reverse_cons, List.append_assoc]
      rfl

/-- Phrases in parentheses. -/
theorem WrittenAll.list {ps : List Phrase} {text : String} (h : WrittenAll ps text) :
    (ofParts ps).Written ("(" ++ text ++ ")") := by
  have hclosing := Grammar.prints_closing.weaken fun c (_ : ending c = true) => rfl
  refine ((Grammar.prints_opening.appendFree h).append hclosing ⟨_, _, rfl, rfl⟩).mono ?_
  rintro _ ⟨_, _, rfl, ⟨_, ts, rfl, hopening, hts⟩, hclosing⟩ parts rest
  obtain ⟨o, rfl, ho⟩ := hopening.one
  obtain ⟨q, rfl, hq⟩ := hclosing.one
  have hpush : step (parts :: rest) o = [] :: parts :: rest := by
    rw [step, if_pos (kind_of_fixed ho)]
  have hpop : step ((ps.reverse ++ []) :: parts :: rest) q = (ofParts ps :: parts) :: rest := by
    rw [step, kind_of_fixed hq, if_neg (by decide), if_pos rfl, close, List.append_nil,
      List.reverse_reverse]
  rw [List.foldl_append, List.foldl_append]
  show step (ts.foldl step (step (parts :: rest) o)) q = _
  rw [hpush, hts, hpop]

theorem intercalate_blank (text : String) (texts : List String) :
    " ".intercalate (text :: texts) = text ++ String.join (texts.map fun t => " " ++ t) := by
  induction texts generalizing text with
  | nil => rw [String.intercalate_singleton, List.map_nil, String.join_nil, String.append_empty]
  | cons next texts ih =>
    rw [String.intercalate_cons_cons, ih, List.map_cons, String.join_cons, String.append_assoc,
      String.append_assoc]

/-- A head and its parts in parentheses. -/
theorem Written.parenthesized {head : Phrase} {ps : List Phrase} {text : String}
    {texts : List String} (h : head.Written text) (hs : List.Forall₂ Written ps texts) :
    (ofParts (head :: ps)).Written (LoxLang.parenthesized text texts) := by
  have hlist := (writtenAll_intercalate " " rfl ⟨_, _, rfl, rfl⟩ (.cons h hs)).list
  rwa [intercalate_blank, ← String.append_assoc] at hlist

theorem written_name {t : Token} (h : t.Is Token.Genuine .identifier) :
    (ofToken t.unlined).Written t.lexeme := by
  refine written_token h.1 ?_
  rw [h.2]
  decide

theorem mapM_token? (ts : List Token) : (ts.map ofToken).mapM token? = some ts := by
  induction ts with
  | nil => rfl
  | cons t ts ih =>
    rw [List.map_cons, List.mapM_cons, ih]
    rfl

theorem written_parameterList {params : List Token}
    (h : ∀ t ∈ params, t.Is Token.Genuine .identifier) :
    ∃ p : Phrase, p.Written (parameterList params) ∧ p.token? = none ∧
      p.names? = some (params.map Token.unlined) := by
  have hwritten : List.Forall₂ Written ((params.map Token.unlined).map ofToken)
      (params.map (·.lexeme)) := by
    rw [List.map_map, List.forall₂_map_left_iff, List.forall₂_map_right_iff, List.forall₂_same]
    exact fun t ht => written_name (h t ht)
  exact ⟨_, (writtenAll_intercalate " " rfl ⟨_, _, rfl, rfl⟩ hwritten).list, rfl, mapM_token? _⟩

end Phrase

end LoxLang
