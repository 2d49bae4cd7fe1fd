import LoxLang.Syntax.Reading

/-!
The grammar of programs, as derivations of trees from lists of tokens.

    program     := declaration*
    declaration := "fun" IDENTIFIER function | varDecl | statement
    varDecl     := "var" IDENTIFIER ("=" assignment)? ";"
    statement   := exprStmt | ifStmt | whileStmt | forStmt | printStmt | returnStmt | block
    assignment  := IDENTIFIER "=" assignment | logic_or
    logic_or    := logic_and ("or" logic_and)*         and so on up to factor
    unary       := ("!" | "-") unary | call
    call        := primary ("(" arguments? ")")*
    primary     := NUMBER | STRING | "true" | "false" | "nil" | IDENTIFIER
                 | "(" assignment ")" | "fun" function
    function    := "(" parameters? ")" block

A derivation gives the tree, with operators grouped to the left and each `for` in the form of a
`while`.  A statement is derived together with a truth value, which says whether it ends in an `if`
that an `else` could still follow; the branch before an `else` must not, so an `else` belongs to
the nearest `if`.  Node numbers are left open: the grammar knows none.

`fits` says which lengths a list of arguments or parameters may have.
-/

namespace LoxLang.Grammar

/-- The kinds of expressions, from the loosest to the tightest. -/
inductive Level
  | assignment | logicOr | logicAnd | equality | comparison | term | factor | unary | call | primary
  deriving DecidableEq

namespace Level

/-- What the operands of a level are. -/
def next : Level → Level
  | assignment => logicOr
  | logicOr => logicAnd
  | logicAnd => equality
  | equality => comparison
  | comparison => term
  | term => factor
  | factor => unary
  | unary => call
  | call => primary
  | primary => primary

/-- The operators that a level writes between its operands. -/
def operators : Level → List Kind
  | logicOr => [.orKw]
  | logicAnd => [.andKw]
  | equality => [.notEquals, .equals]
  | comparison => [.greater, .greaterEquals, .less, .lessEquals]
  | term => [.dash, .plus]
  | factor => [.star, .slash, .percent]
  | _ => []

/-- The tree of an operator of a level and its two operands. -/
def node (level : Level) (left : Expr) (operator : Token) (right : Expr) : Expr :=
  match level with
  | logicOr | logicAnd => .logical left operator right
  | _ => .binary left operator right

end Level

/-- `for (initializer; condition; increment) body` without `for`. -/
def forLoop : Option Stmt → Option Expr → Option Expr → Stmt → Stmt
  | none, condition, none, body => .while (condition.getD (.constant (.bool true))) body
  | none, condition, some e, body =>
    .while (condition.getD (.constant (.bool true))) (.block [body, .expression e])
  | some s, condition, none, body =>
    .block [s, .while (condition.getD (.constant (.bool true))) body]
  | some s, condition, some e, body =>
    .block [s, .while (condition.getD (.constant (.bool true))) (.block [body, .expression e])]

theorem loopOf_eq (initializer : Option Stmt) (condition increment : Option Expr) (body : Stmt) :
    Read.loopOf initializer condition increment body =
      forLoop initializer condition increment body := by
  cases initializer <;> cases increment <;> rfl

/-- Names separated by commas. -/
inductive Parameters : List Token → List Token → Prop
  | one {name} : name.kind = .identifier → Parameters [name] [name]
  | more {name comma ts names} : name.kind = .identifier → comma.kind = .comma →
      Parameters ts names → Parameters (name :: comma :: ts) (name :: names)

inductive ParameterList : List Token → List Token → Prop
  | none : ParameterList [] []
  | some {ts names} : Parameters ts names → ParameterList ts names

variable (fits : Nat → Prop)

mutual

inductive Expression : Level → List Token → Expr → Prop
  | assign {name equals ts value} (id) : name.kind = .identifier → equals.kind = .assignment →
      Expression .assignment ts value →
      Expression .assignment (name :: equals :: ts) (.assign id name value)
  | operation {level : Level} {ls l operator rs r} : operator.kind ∈ level.operators →
      Expression level ls l → Expression level.next rs r →
      Expression level (ls ++ operator :: rs) (level.node l operator r)
  | unary {operator ts e} : operator.kind = .not ∨ operator.kind = .dash →
      Expression .unary ts e → Expression .unary (operator :: ts) (.unary operator e)
  | call {ts callee opening as arguments closing} : opening.kind = .openParen →
      closing.kind = .closeParen → Expression .call ts callee → ArgumentList as arguments →
      fits arguments.length →
      Expression .call (ts ++ opening :: (as ++ [closing])) (.call callee closing arguments)
  | number {t} : t.kind = .number →
      Expression .primary [t] (.constant (.number (Read.numberOf t)))
  | string {t} : t.kind = .string →
      Expression .primary [t] (.constant (.string (Read.stringOf t)))
  | true {t} : t.kind = .trueKw → Expression .primary [t] (.constant (.bool true))
  | false {t} : t.kind = .falseKw → Expression .primary [t] (.constant (.bool false))
  | nil {t} : t.kind = .nilKw → Expression .primary [t] (.constant .nil)
  | read {name} (id) : name.kind = .identifier → Expression .primary [name] (.read id name)
  | grouping {opening ts e closing} : opening.kind = .openParen → closing.kind = .closeParen →
      Expression .assignment ts e → Expression .primary (opening :: (ts ++ [closing])) (.grouping e)
  | function {keyword ts params body} : keyword.kind = .funKw → Function ts params body →
      Expression .primary (keyword :: ts) (.function keyword params body)
  | tighter {level ts e} : Expression (Level.next level) ts e → Expression level ts e

/-- Expressions separated by commas. -/
inductive Arguments : List Token → List Expr → Prop
  | one {ts e} : Expression .assignment ts e → Arguments ts [e]
  | more {ts e comma us es} : comma.kind = .comma → Expression .assignment ts e →
      Arguments us es → Arguments (ts ++ comma :: us) (e :: es)

inductive ArgumentList : List Token → List Expr → Prop
  | none : ArgumentList [] []
  | some {ts es} : Arguments ts es → ArgumentList ts es

inductive Function : List Token → List Token → List Stmt → Prop
  | mk {opening ps params closing ts body} : opening.kind = .openParen →
      closing.kind = .closeParen → ParameterList ps params → fits params.length →
      Block ts body → Function (opening :: (ps ++ closing :: ts)) params body

inductive Block : List Token → List Stmt → Prop
  | mk {opening ts body closing} : opening.kind = .openCurly → closing.kind = .closeCurly →
      Declarations ts body → Block (opening :: (ts ++ [closing])) body

inductive Declarations : List Token → List Stmt → Prop
  | nil : Declarations [] []
  | cons {ts s us ss} : Declaration ts s → Declarations us ss → Declarations (ts ++ us) (s :: ss)

inductive Declaration : List Token → Stmt → Prop
  | function {keyword name ts params body} : keyword.kind = .funKw → name.kind = .identifier →
      Function ts params body → Declaration (keyword :: name :: ts) (.function name params body)
  | var {ts s} : VarDeclaration ts s → Declaration ts s
  | statement {dangling ts s} : Statement dangling ts s → Declaration ts s

inductive VarDeclaration : List Token → Stmt → Prop
  | unset {keyword name semicolon} : keyword.kind = .varKw → name.kind = .identifier →
      semicolon.kind = .semicolon → VarDeclaration [keyword, name, semicolon] (.var name none)
  | set {keyword name equals ts value semicolon} : keyword.kind = .varKw →
      name.kind = .identifier → equals.kind = .assignment → semicolon.kind = .semicolon →
      Expression .assignment ts value →
      VarDeclaration (keyword :: name :: equals :: (ts ++ [semicolon])) (.var name (some value))

inductive ExpressionStatement : List Token → Stmt → Prop
  | mk {ts e semicolon} : semicolon.kind = .semicolon → Expression .assignment ts e →
      ExpressionStatement (ts ++ [semicolon]) (.expression e)

/-- An expression that may be left out. -/
inductive Clause : List Token → Option Expr → Prop
  | none : Clause [] none
  | some {ts e} : Expression .assignment ts e → Clause ts (some e)

/-- The first clause of a `for`, with its semicolon. -/
inductive Initializer : List Token → Option Stmt → Prop
  | none {semicolon} : semicolon.kind = .semicolon → Initializer [semicolon] none
  | var {ts s} : VarDeclaration ts s → Initializer ts (some s)
  | expression {ts s} : ExpressionStatement ts s → Initializer ts (some s)

inductive Statement : Bool → List Token → Stmt → Prop
  | expression {ts s} : ExpressionStatement ts s → Statement false ts s
  | print {keyword ts value semicolon} : keyword.kind = .printKw → semicolon.kind = .semicolon →
      Expression .assignment ts value →
      Statement false (keyword :: (ts ++ [semicolon])) (.print keyword value)
  | return {keyword ts value semicolon} : keyword.kind = .returnKw →
      semicolon.kind = .semicolon → Clause ts value →
      Statement false (keyword :: (ts ++ [semicolon])) (.return keyword value)
  | block {ts body} : Block ts body → Statement false ts (.block body)
  | ifThen {keyword opening cs condition closing dangling ts s} : keyword.kind = .ifKw →
      opening.kind = .openParen → closing.kind = .closeParen →
      Expression .assignment cs condition → Statement dangling ts s →
      Statement true (keyword :: opening :: (cs ++ closing :: ts)) (.ifElse condition s none)
  | ifElse {keyword opening cs condition closing ts s otherwise dangling us t} :
      keyword.kind = .ifKw → opening.kind = .openParen → closing.kind = .closeParen →
      otherwise.kind = .elseKw → Expression .assignment cs condition → Statement false ts s →
      Statement dangling us t →
      Statement dangling (keyword :: opening :: (cs ++ closing :: (ts ++ otherwise :: us)))
        (.ifElse condition s (some t))
  | while {keyword opening cs condition closing dangling ts s} : keyword.kind = .whileKw →
      opening.kind = .openParen → closing.kind = .closeParen →
      Expression .assignment cs condition → Statement dangling ts s →
      Statement dangling (keyword :: opening :: (cs ++ closing :: ts)) (.while condition s)
  | for {keyword opening is initializer cs condition semicolon es increment closing dangling ts s} :
      keyword.kind = .forKw → opening.kind = .openParen → semicolon.kind = .semicolon →
      closing.kind = .closeParen → Initializer is initializer → Clause cs condition →
      Clause es increment → Statement dangling ts s →
      Statement dangling
        (keyword :: opening :: (is ++ (cs ++ semicolon :: (es ++ closing :: ts))))
        (forLoop initializer condition increment s)

end

theorem Declarations.append {fits : Nat → Prop} {ts us : List Token} {ss qs : List Stmt}
    (h : Declarations fits ts ss) (h' : Declarations fits us qs) :
    Declarations fits (ts ++ us) (ss ++ qs) := by
  induction ss generalizing ts with
  | nil =>
    cases h
    exact h'
  | cons s ss ih =>
    cases h with
    | cons hd hs =>
      rw [List.append_assoc]
      exact .cons hd (ih hs)

end LoxLang.Grammar
