import LoxLang.Proofs.Syntax.Relabel
import Mathlib.Data.List.Forall2

/-!
Trees that differ in their labels only.

Two trees are alike, for a relation on tokens and one on node numbers, if they have the same shape and
the same constants and the labels at each place are related.  Trees that become equal by relabelling
are alike (`Stmt.likeAll_of_relabel_eq`): a tree and its copy with other node numbers or other lines.
-/

namespace LoxLang

section

variable (r : Token → Token → Prop) (q : NodeId → NodeId → Prop)

mutual

inductive Expr.Like : Expr → Expr → Prop
  | constant {value} : Expr.Like (.constant value) (.constant value)
  | grouping {inner inner'} : Expr.Like inner inner' →
      Expr.Like (.grouping inner) (.grouping inner')
  | unary {operator operator' operand operand'} : r operator operator' →
      Expr.Like operand operand' → Expr.Like (.unary operator operand) (.unary operator' operand')
  | binary {left left' operator operator' right right'} : Expr.Like left left' →
      r operator operator' → Expr.Like right right' →
      Expr.Like (.binary left operator right) (.binary left' operator' right')
  | logical {left left' operator operator' right right'} : Expr.Like left left' →
      r operator operator' → Expr.Like right right' →
      Expr.Like (.logical left operator right) (.logical left' operator' right')
  | read {id id' name name'} : q id id' → r name name' →
      Expr.Like (.read id name) (.read id' name')
  | assign {id id' name name' value value'} : q id id' → r name name' → Expr.Like value value' →
      Expr.Like (.assign id name value) (.assign id' name' value')
  | call {callee callee' paren paren' arguments arguments'} : Expr.Like callee callee' →
      r paren paren' → Expr.LikeAll arguments arguments' →
      Expr.Like (.call callee paren arguments) (.call callee' paren' arguments')
  | function {keyword keyword' params params' body body'} : r keyword keyword' →
      List.Forall₂ r params params' → Stmt.LikeAll body body' →
      Expr.Like (.function keyword params body) (.function keyword' params' body')

inductive Expr.LikeAll : List Expr → List Expr → Prop
  | nil : Expr.LikeAll [] []
  | cons {e e' es es'} : Expr.Like e e' → Expr.LikeAll es es' →
      Expr.LikeAll (e :: es) (e' :: es')

inductive Expr.LikeOption : Option Expr → Option Expr → Prop
  | none : Expr.LikeOption none none
  | some {e e'} : Expr.Like e e' → Expr.LikeOption (some e) (some e')

inductive Stmt.Like : Stmt → Stmt → Prop
  | expression {value value'} : Expr.Like value value' →
      Stmt.Like (.expression value) (.expression value')
  | print {keyword keyword' value value'} : r keyword keyword' → Expr.Like value value' →
      Stmt.Like (.print keyword value) (.print keyword' value')
  | var {name name' initializer initializer'} : r name name' →
      Expr.LikeOption initializer initializer' →
      Stmt.Like (.var name initializer) (.var name' initializer')
  | block {body body'} : Stmt.LikeAll body body' → Stmt.Like (.block body) (.block body')
  | ifElse {condition condition' thenBranch thenBranch' elseBranch elseBranch'} :
      Expr.Like condition condition' → Stmt.Like thenBranch thenBranch' →
      Stmt.LikeOption elseBranch elseBranch' →
      Stmt.Like (.ifElse condition thenBranch elseBranch)
        (.ifElse condition' thenBranch' elseBranch')
  | while {condition condition' body body'} : Expr.Like condition condition' →
      Stmt.Like body body' → Stmt.Like (.while condition body) (.while condition' body')
  | function {name name' params params' body body'} : r name name' →
      List.Forall₂ r params params' → Stmt.LikeAll body body' →
      Stmt.Like (.function name params body) (.function name' params' body')
  | return {keyword keyword' value value'} : r keyword keyword' → Expr.LikeOption value value' →
      Stmt.Like (.return keyword value) (.return keyword' value')

inductive Stmt.LikeAll : List Stmt → List Stmt → Prop
  | nil : Stmt.LikeAll [] []
  | cons {s s' ss ss'} : Stmt.Like s s' → Stmt.LikeAll ss ss' →
      Stmt.LikeAll (s :: ss) (s' :: ss')

inductive Stmt.LikeOption : Option Stmt → Option Stmt → Prop
  | none : Stmt.LikeOption none none
  | some {s s'} : Stmt.Like s s' → Stmt.LikeOption (some s) (some s')

end

end

/-! ## Weaker relations -/

section

variable {r r' : Token → Token → Prop} {q q' : NodeId → NodeId → Prop}

mutual

theorem Expr.Like.mono {e e' : Expr} (h : Expr.Like r q e e')
    (hr : ∀ t t', r t t' → r' t t') (hq : ∀ i j, q i j → q' i j) : Expr.Like r' q' e e' :=
  match h with
  | .constant => .constant
  | .grouping he => .grouping (he.mono hr hq)
  | .unary ho he => .unary (hr _ _ ho) (he.mono hr hq)
  | .binary hl ho hright => .binary (hl.mono hr hq) (hr _ _ ho) (hright.mono hr hq)
  | .logical hl ho hright => .logical (hl.mono hr hq) (hr _ _ ho) (hright.mono hr hq)
  | .read hi hn => .read (hq _ _ hi) (hr _ _ hn)
  | .assign hi hn hv => .assign (hq _ _ hi) (hr _ _ hn) (hv.mono hr hq)
  | .call hc hp has => .call (hc.mono hr hq) (hr _ _ hp) (has.mono hr hq)
  | .function hk hps hb => .function (hr _ _ hk) (hps.imp hr) (hb.mono hr hq)
termination_by structural h

theorem Expr.LikeAll.mono {es es' : List Expr} (h : Expr.LikeAll r q es es')
    (hr : ∀ t t', r t t' → r' t t') (hq : ∀ i j, q i j → q' i j) :
    Expr.LikeAll r' q' es es' :=
  match h with
  | .nil => .nil
  | .cons he hes => .cons (he.mono hr hq) (hes.mono hr hq)
termination_by structural h

theorem Expr.LikeOption.mono {o o' : Option Expr} (h : Expr.LikeOption r q o o')
    (hr : ∀ t t', r t t' → r' t t') (hq : ∀ i j, q i j → q' i j) :
    Expr.LikeOption r' q' o o' :=
  match h with
  | .none => .none
  | .some he => .some (he.mono hr hq)
termination_by structural h

theorem Stmt.Like.mono {s s' : Stmt} (h : Stmt.Like r q s s')
    (hr : ∀ t t', r t t' → r' t t') (hq : ∀ i j, q i j → q' i j) : Stmt.Like r' q' s s' :=
  match h with
  | .expression he => .expression (he.mono hr hq)
  | .print hk he => .print (hr _ _ hk) (he.mono hr hq)
  | .var hn ho => .var (hr _ _ hn) (ho.mono hr hq)
  | .block hb => .block (hb.mono hr hq)
  | .ifElse hc ht ho => .ifElse (hc.mono hr hq) (ht.mono hr hq) (ho.mono hr hq)
  | .while hc hb => .while (hc.mono hr hq) (hb.mono hr hq)
  | .function hn hps hb => .function (hr _ _ hn) (hps.imp hr) (hb.mono hr hq)
  | .return hk ho => .return (hr _ _ hk) (ho.mono hr hq)
termination_by structural h

theorem Stmt.LikeAll.mono {ss ss' : List Stmt} (h : Stmt.LikeAll r q ss ss')
    (hr : ∀ t t', r t t' → r' t t') (hq : ∀ i j, q i j → q' i j) :
    Stmt.LikeAll r' q' ss ss' :=
  match h with
  | .nil => .nil
  | .cons hs hss => .cons (hs.mono hr hq) (hss.mono hr hq)
termination_by structural h

theorem Stmt.LikeOption.mono {o o' : Option Stmt} (h : Stmt.LikeOption r q o o')
    (hr : ∀ t t', r t t' → r' t t') (hq : ∀ i j, q i j → q' i j) :
    Stmt.LikeOption r' q' o o' :=
  match h with
  | .none => .none
  | .some hs => .some (hs.mono hr hq)
termination_by structural h

end

end

/-! ## Relabelling -/

theorem forall₂_of_map_eq {f f' : Token → Token} {ts ts' : List Token}
    (h : ts.map f = ts'.map f') : List.Forall₂ (fun t t' => f t = f' t') ts ts' := by
  rw [← List.forall₂_eq_eq_eq, List.forall₂_map_left_iff, List.forall₂_map_right_iff] at h
  exact h

section

variable {f f' : Token → Token} {g g' : NodeId → NodeId}

mutual

theorem Expr.like_of_relabel_eq (e e' : Expr) (h : e.relabel f g = e'.relabel f' g') :
    Expr.Like (fun t t' => f t = f' t') (fun i j => g i = g' j) e e' := by
  cases e with
  | constant value =>
    cases e' with
    | constant value' =>
      cases h
      exact .constant
    | _ => cases h
  | grouping inner =>
    cases e' with
    | grouping inner' => exact .grouping (inner.like_of_relabel_eq inner' (Expr.grouping.inj h))
    | _ => cases h
  | unary operator operand =>
    cases e' with
    | unary operator' operand' =>
      obtain ⟨ho, he⟩ := Expr.unary.inj h
      exact .unary ho (operand.like_of_relabel_eq operand' he)
    | _ => cases h
  | binary left operator right =>
    cases e' with
    | binary left' operator' right' =>
      obtain ⟨hl, ho, hr⟩ := Expr.binary.inj h
      exact .binary (left.like_of_relabel_eq left' hl) ho (right.like_of_relabel_eq right' hr)
    | _ => cases h
  | logical left operator right =>
    cases e' with
    | logical left' operator' right' =>
      obtain ⟨hl, ho, hr⟩ := Expr.logical.inj h
      exact .logical (left.like_of_relabel_eq left' hl) ho (right.like_of_relabel_eq right' hr)
    | _ => cases h
  | read id name =>
    cases e' with
    | read id' name' =>
      obtain ⟨hi, hn⟩ := Expr.read.inj h
      exact .read hi hn
    | _ => cases h
  | assign id name value =>
    cases e' with
    | assign id' name' value' =>
      obtain ⟨hi, hn, hv⟩ := Expr.assign.inj h
      exact .assign hi hn (value.like_of_relabel_eq value' hv)
    | _ => cases h
  | call callee paren arguments =>
    cases e' with
    | call callee' paren' arguments' =>
      obtain ⟨hc, hp, has⟩ := Expr.call.inj h
      exact .call (callee.like_of_relabel_eq callee' hc) hp
        (Expr.likeAll_of_relabel_eq arguments arguments' has)
    | _ => cases h
  | function keyword params body =>
    cases e' with
    | function keyword' params' body' =>
      obtain ⟨hk, hps, hb⟩ := Expr.function.inj h
      exact .function hk (forall₂_of_map_eq hps) (Stmt.likeAll_of_relabel_eq body body' hb)
    | _ => cases h
termination_by structural e

theorem Expr.likeAll_of_relabel_eq (es es' : List Expr)
    (h : Expr.relabelAll f g es = Expr.relabelAll f' g' es') :
    Expr.LikeAll (fun t t' => f t = f' t') (fun i j => g i = g' j) es es' := by
  cases es with
  | nil =>
    cases es' with
    | nil => exact .nil
    | cons e' es' => cases h
  | cons e es =>
    cases es' with
    | nil => cases h
    | cons e' es' =>
      obtain ⟨he, hes⟩ := List.cons.inj h
      exact .cons (e.like_of_relabel_eq e' he) (Expr.likeAll_of_relabel_eq es es' hes)
termination_by structural es

theorem Expr.likeOption_of_relabel_eq (o o' : Option Expr)
    (h : Expr.relabelOption f g o = Expr.relabelOption f' g' o') :
    Expr.LikeOption (fun t t' => f t = f' t') (fun i j => g i = g' j) o o' := by
  cases o with
  | none =>
    cases o' with
    | none => exact .none
    | some e' => cases h
  | some e =>
    cases o' with
    | none => cases h
    | some e' => exact .some (e.like_of_relabel_eq e' (Option.some.inj h))
termination_by structural o

theorem Stmt.like_of_relabel_eq (s s' : Stmt) (h : s.relabel f g = s'.relabel f' g') :
    Stmt.Like (fun t t' => f t = f' t') (fun i j => g i = g' j) s s' := by
  cases s with
  | expression value =>
    cases s' with
    | expression value' => exact .expression (value.like_of_relabel_eq value' (Stmt.expression.inj h))
    | _ => cases h
  | print keyword value =>
    cases s' with
    | print keyword' value' =>
      obtain ⟨hk, hv⟩ := Stmt.print.inj h
      exact .print hk (value.like_of_relabel_eq value' hv)
    | _ => cases h
  | var name initializer =>
    cases s' with
    | var name' initializer' =>
      obtain ⟨hn, ho⟩ := Stmt.var.inj h
      exact .var hn (Expr.likeOption_of_relabel_eq initializer initializer' ho)
    | _ => cases h
  | block body =>
    cases s' with
    | block body' => exact .block (Stmt.likeAll_of_relabel_eq body body' (Stmt.block.inj h))
    | _ => cases h
  | ifElse condition thenBranch elseBranch =>
    cases s' with
    | ifElse condition' thenBranch' elseBranch' =>
      obtain ⟨hc, ht, he⟩ := Stmt.ifElse.inj h
      exact .ifElse (condition.like_of_relabel_eq condition' hc)
        (thenBranch.like_of_relabel_eq thenBranch' ht)
        (Stmt.likeOption_of_relabel_eq elseBranch elseBranch' he)
    | _ => cases h
  | «while» condition body =>
    cases s' with
    | «while» condition' body' =>
      obtain ⟨hc, hb⟩ := Stmt.while.inj h
      exact .while (condition.like_of_relabel_eq condition' hc) (body.like_of_relabel_eq body' hb)
    | _ => cases h
  | function name params body =>
    cases s' with
    | function name' params' body' =>
      obtain ⟨hn, hps, hb⟩ := Stmt.function.inj h
      exact .function hn (forall₂_of_map_eq hps) (Stmt.likeAll_of_relabel_eq body body' hb)
    | _ => cases h
  | «return» keyword value =>
    cases s' with
    | «return» keyword' value' =>
      obtain ⟨hk, ho⟩ := Stmt.return.inj h
      exact .return hk (Expr.likeOption_of_relabel_eq value value' ho)
    | _ => cases h
termination_by structural s

theorem Stmt.likeAll_of_relabel_eq (ss ss' : List Stmt)
    (h : Stmt.relabelAll f g ss = Stmt.relabelAll f' g' ss') :
    Stmt.LikeAll (fun t t' => f t = f' t') (fun i j => g i = g' j) ss ss' := by
  cases ss with
  | nil =>
    cases ss' with
    | nil => exact .nil
    | cons s' ss' => cases h
  | cons s ss =>
    cases ss' with
    | nil => cases h
    | cons s' ss' =>
      obtain ⟨hs, hss⟩ := List.cons.inj h
      exact .cons (s.like_of_relabel_eq s' hs) (Stmt.likeAll_of_relabel_eq ss ss' hss)
termination_by structural ss

theorem Stmt.likeOption_of_relabel_eq (o o' : Option Stmt)
    (h : Stmt.relabelOption f g o = Stmt.relabelOption f' g' o') :
    Stmt.LikeOption (fun t t' => f t = f' t') (fun i j => g i = g' j) o o' := by
  cases o with
  | none =>
    cases o' with
    | none => exact .none
    | some s' => cases h
  | some s =>
    cases o' with
    | none => cases h
    | some s' => exact .some (s.like_of_relabel_eq s' (Option.some.inj h))
termination_by structural o

end

end

/-- Statements that are the same but for node numbers. -/
theorem Stmt.likeAll_of_unnumbered_eq {r : Token → Token → Prop} (hr : ∀ token, r token token)
    {ss ss' : List Stmt} (h : LoxLang.unnumbered ss = LoxLang.unnumbered ss') :
    Stmt.LikeAll r (fun _ _ => True) ss ss' := by
  refine (Stmt.likeAll_of_relabel_eq ss ss' h).mono ?_ fun _ _ _ => trivial
  rintro token _ rfl
  exact hr token

end LoxLang
