import LoxLang.Proofs.Syntax.Grammar
import LoxLang.Proofs.Syntax.Relabel

/-!
Levels of the grammar and binding powers.

Reading knows ten binding powers, the grammar ten kinds of expressions.  `Level.power` is the power
that may at most follow an expression of a level without belonging to it, and `Power.operand` the
level that is read with a power.  The operators of a level are those that have its power
(`power_of_mem`, `exists_level`).
-/

namespace LoxLang

namespace Grammar

namespace Level

def rank : Level → Nat
  | assignment => 0
  | logicOr => 1
  | logicAnd => 2
  | equality => 3
  | comparison => 4
  | term => 5
  | factor => 6
  | unary => 7
  | call => 8
  | primary => 9

theorem rank_inj {l m : Level} (h : l.rank = m.rank) : l = m := by
  cases l <;> cases m <;> first | rfl | exact absurd h (by decide)

theorem rank_next {l : Level} (h : l ≠ .primary) : l.next.rank = l.rank + 1 := by
  cases l <;> first | rfl | exact absurd rfl h

theorem rank_le_next (l : Level) : l.rank ≤ l.next.rank := by
  cases l <;> decide

theorem rank_le (l : Level) : l.rank ≤ 9 := by
  cases l <;> decide

/-- The power that may at most follow an expression of a level without belonging to it. -/
def power : Level → Power
  | assignment => .none
  | logicOr => .logicalOr
  | logicAnd => .logicalAnd
  | equality => .equality
  | comparison => .comparison
  | term => .additive
  | factor => .multiplicative
  | unary => .unary
  | call => .call
  | primary => .call

theorem power_le_next (l : Level) : l.power.level ≤ l.next.power.level := by
  cases l <;> decide

theorem rank_le_of_power_le {l m : Level} (hm : l.rank ≤ Level.call.rank)
    (h : l.power.level ≤ m.power.level) : l.rank ≤ m.rank := by
  cases l <;> cases m <;> first | decide | exact absurd h (by decide) | exact absurd hm (by decide)

end Level

/-- An expression of a level is one of every looser level. -/
theorem Expression.loosen {fits : Nat → Prop} {l m : Level} {ts : List Token} {e : Expr}
    (h : Expression fits m ts e) (hl : l.rank ≤ m.rank) : Expression fits l ts e := by
  generalize hd : m.rank - l.rank = d
  induction d generalizing l with
  | zero =>
    have he : l = m := Level.rank_inj (by omega)
    exact he ▸ h
  | succ d ih =>
    have hp : l ≠ .primary := by
      intro hp
      have := m.rank_le
      rw [hp] at hd
      change m.rank - 9 = d + 1 at hd
      omega
    have hn := Level.rank_next hp
    exact .tighter (ih (by omega) (by omega))

end Grammar

open Grammar

namespace Power

/-- The level that is read with a power: of what binds more tightly. -/
def operand : Power → Level
  | none => .assignment
  | assignment => .logicOr
  | logicalOr => .logicAnd
  | logicalAnd => .equality
  | equality => .comparison
  | comparison => .term
  | additive => .factor
  | multiplicative => .unary
  | unary => .unary
  | call => .primary

theorem operand_rank_le {p : Power} {l : Level} (h : p.level < l.power.level) :
    p.operand.rank ≤ l.rank := by
  cases p <;> cases l <;> first | decide | exact absurd h (by decide)

theorem level_le_of_operand_rank_le {p : Power} {l : Level} (h : p.operand.rank ≤ l.rank) :
    p.level ≤ l.power.level := by
  cases p <;> cases l <;> first | decide | exact absurd h (by decide)

/-- The operators of a level bind more tightly than a power with which the level is read. -/
theorem level_lt_of_operand_rank_le {p : Power} {l : Level} (h : p.operand.rank ≤ l.rank)
    (hl : 0 < l.rank) (hu : l.rank < Level.unary.rank) : p.level < l.power.level := by
  cases p <;> cases l <;> first
    | decide | exact absurd h (by decide) | exact absurd hl (by decide) | exact absurd hu (by decide)

theorem operand_rank_le_unary {p : Power} (h : p.level ≤ unary.level) :
    p.operand.rank ≤ Level.unary.rank := by
  cases p <;> first | decide | exact absurd h (by decide)

end Power

/-! ## Operators -/

theorem exists_level {k : Kind} (hp : k.power.level ≠ 0) (ha : k ≠ .assignment)
    (ho : k ≠ .openParen) : ∃ l : Level, k ∈ l.operators := by
  cases k
  case orKw => exact ⟨.logicOr, by decide⟩
  case andKw => exact ⟨.logicAnd, by decide⟩
  case equals | notEquals => exact ⟨.equality, by decide⟩
  case less | lessEquals | greater | greaterEquals => exact ⟨.comparison, by decide⟩
  case plus | dash => exact ⟨.term, by decide⟩
  case star | slash | percent => exact ⟨.factor, by decide⟩
  case assignment => exact absurd rfl ha
  case openParen => exact absurd rfl ho
  all_goals exact absurd rfl hp

namespace Grammar.Level

variable {l : Level} {k : Kind}

theorem power_of_mem (h : k ∈ l.operators) : k.power = l.power := by
  have hall : ∀ k ∈ l.operators, k.power = l.power := by cases l <;> decide
  exact hall k h

/-- The right side of an operator is read with its power, and so as the next level. -/
theorem operand_of_mem (h : k ∈ l.operators) : k.power.operand = l.next := by
  have hall : ∀ k ∈ l.operators, k.power.operand = l.next := by cases l <;> decide
  exact hall k h

theorem rank_of_mem (h : k ∈ l.operators) : 0 < l.rank ∧ l.rank < Level.unary.rank := by
  cases l <;> first | decide | exact absurd h (List.not_mem_nil)

theorem power_le_of_mem (h : k ∈ l.operators) : k.power.level ≤ Power.unary.level := by
  have hall : ∀ k ∈ l.operators, k.power.level ≤ Power.unary.level := by cases l <;> decide
  exact hall k h

theorem ids_node (left : Expr) (operator : Token) (right : Expr) :
    (l.node left operator right).ids = left.ids ++ right.ids := by
  cases l <;> rfl

theorem unnumbered_node (left : Expr) (operator : Token) (right : Expr) :
    (l.node left operator right).unnumbered =
      l.node left.unnumbered operator right.unnumbered := by
  cases l <;> rfl

theorem node_ne_read (left : Expr) (operator : Token) (right : Expr) (id : NodeId)
    (name : Token) : l.node left operator right ≠ .read id name := by
  intro h
  cases l <;> cases h

end Grammar.Level

/-- How reading goes on at an operator of a level. -/
theorem Read.continuation_operator {l : Level} {k : Kind} (h : k ∈ l.operators) (n : Nat)
    (left : Expr) (r : Reading) :
    Read.continuation (n + 1) k left r =
      (Read.advance >>= fun operator => Read.expr n k.power >>= fun right =>
        (pure (l.node left operator right) : Read Expr)) r := by
  have hk := Level.power_of_mem h
  cases l
  case logicOr =>
    obtain rfl := List.mem_singleton.1 h
    rfl
  case logicAnd =>
    obtain rfl := List.mem_singleton.1 h
    rfl
  all_goals cases k <;> first | rfl | exact absurd hk (by decide) | exact absurd h (by decide)

end LoxLang
