import LoxLang.Proofs.Machine.Links
import LoxLang.Proofs.Scope.Accepted
import LoxLang.Proofs.Syntax.Place

/-!
What the statements of a program may do to the frames.

Every node of a program that has been read is proper, so a statement that is no declaration has none in
its branches either.  It adds no name to the frames that there are, and a declaration adds its own name
to the active frame (`frames_change_by_declarations`).
-/

namespace LoxLang

/-! ## Nodes -/

/-- Declarations stand below the node only where they may. -/
def Node.Proper : Node → Prop
  | program ss => Stmt.ProperAll ss
  | statement s => s.Proper
  | expression e => e.Proper

theorem Expr.ProperAll.mem {es : List Expr} (h : Expr.ProperAll es) : ∀ e ∈ es, e.Proper := by
  induction es with
  | nil => exact fun e he => absurd he List.not_mem_nil
  | cons e es ih => exact List.forall_mem_cons.2 ⟨h.1, ih h.2⟩

theorem Stmt.ProperAll.mem {ss : List Stmt} (h : Stmt.ProperAll ss) : ∀ s ∈ ss, s.Proper := by
  induction ss with
  | nil => exact fun s hs => absurd hs List.not_mem_nil
  | cons s ss ih => exact List.forall_mem_cons.2 ⟨h.1, ih h.2⟩

theorem Node.Proper.child {node c : Node} (h : node.Proper) (hc : c ∈ node.children) : c.Proper := by
  have hstatements : ∀ ss : List Stmt, Stmt.ProperAll ss → c ∈ ss.map statement → c.Proper := by
    intro ss hss hmem
    obtain ⟨s, hs, rfl⟩ := List.mem_map.1 hmem
    exact hss.mem s hs
  have hexpressions : ∀ es : List Expr, Expr.ProperAll es → c ∈ es.map expression →
      c.Proper := by
    intro es hes hmem
    obtain ⟨e, he, rfl⟩ := List.mem_map.1 hmem
    exact hes.mem e he
  have hoption : ∀ {o : Option Expr}, Expr.ProperOption o → c ∈ o.toList.map expression →
      c.Proper := by
    intro o ho hmem
    cases o with
    | none => exact absurd hmem List.not_mem_nil
    | some e => exact hexpressions [e] ⟨ho, trivial⟩ hmem
  cases node with
  | program ss => exact hstatements _ h hc
  | expression e =>
    cases e with
    | constant value => exact absurd hc List.not_mem_nil
    | grouping inner => exact hexpressions [inner] ⟨h, trivial⟩ hc
    | unary operator operand => exact hexpressions [operand] ⟨h, trivial⟩ hc
    | binary left operator right =>
      exact hexpressions [left, right] ⟨h.1, h.2, trivial⟩ hc
    | logical left operator right =>
      exact hexpressions [left, right] ⟨h.1, h.2, trivial⟩ hc
    | read id name => exact absurd hc List.not_mem_nil
    | assign id name value => exact hexpressions [value] ⟨h, trivial⟩ hc
    | call callee paren arguments => exact hexpressions (callee :: arguments) h hc
    | function keyword params body => exact hstatements _ h hc
  | statement s =>
    cases s with
    | expression value => exact hexpressions [value] ⟨h, trivial⟩ hc
    | print keyword value => exact hexpressions [value] ⟨h, trivial⟩ hc
    | var name initializer => exact hoption h hc
    | block body => exact hstatements _ h hc
    | ifElse condition thenBranch elseBranch =>
      obtain ⟨hcondition, hthen, helse⟩ := h
      rcases List.mem_cons.1 hc with rfl | hc
      · exact hcondition
      rcases List.mem_cons.1 hc with rfl | hc
      · exact hthen.1
      cases elseBranch with
      | none => exact absurd hc List.not_mem_nil
      | some branch => exact hstatements [branch] ⟨helse.1, trivial⟩ hc
    | «while» condition body =>
      rcases List.mem_cons.1 hc with rfl | hc
      · exact h.1
      · exact hstatements [body] ⟨h.2.1, trivial⟩ hc
    | function name params body => exact hstatements _ h hc
    | «return» keyword value => exact hoption h hc

theorem Node.Proper.at? {root node : Node} (h : root.Proper) {path : List Nat}
    (hn : root.at? path = some node) : node.Proper := by
  induction path generalizing node with
  | nil =>
    cases hn
    exact h
  | cons i path ih =>
    obtain ⟨parent, hparent, hchild⟩ := Option.bind_eq_some_iff.1 hn
    exact (ih hparent).child (List.mem_of_getElem? hchild)

def Node.statement? : Node → Option Stmt
  | statement s => some s
  | program _ | expression _ => none

theorem Node.eq_of_statement? {node : Node} {st : Stmt} (h : node.statement? = some st) :
    node = .statement st := by
  cases node with
  | statement s => exact congrArg statement (Option.some.inj h)
  | program _ => cases h
  | expression _ => cases h

/-- Every node of a program that has been read is proper. -/
theorem Program.node_proper {tokens : List Token} {nextId : NodeId} {p : Place} {node : Node}
    (h : p.node? [(Program.ofTokens tokens nextId).statements] = some node) : node.Proper := by
  obtain ⟨ss, hss, hat⟩ := Option.bind_eq_some_iff.1 h
  obtain rfl := List.mem_singleton.1 (List.mem_of_getElem? hss)
  have hroot : Node.Proper (.program (Program.ofTokens tokens nextId).statements) :=
    Program.statements_proper tokens nextId
  exact hroot.at? hat

/-! ## Frames -/

/-- Whether they come to an end or not, and whatever end they come to: an expression adds no name to the
frames that there are, and of the statements of a program only a declaration does, its own name to the
active frame.  No binding and no link between frames is lost, and links lead to older frames. -/
theorem frames_change_by_declarations (context : Context) (m : Machine) :
    (∀ e s, (Activity.evaluate e).Reaches context m s → m.store.Grows s.store fun _ _ => False) ∧
    (∀ tokens nextId (p : Place) st s,
      p.node? [(Program.ofTokens tokens nextId).statements] = some (.statement st) →
        (Activity.execute st).Reaches context m s →
          m.store.Grows s.store fun f name => f = m.active ∧ st.declared? = some name) ∧
    (Machine.start context.host : Machine).Linked ∧
    (context.host.Discreet → m.Linked → ∀ s,
      (∃ e, (Activity.evaluate e).Reaches context m s) ∨
          (∃ st, (Activity.execute st).Reaches context m s) →
        s.Linked ∧ ∀ f k g, s.store.ancestor? f k = some g → g + k ≤ f) := by
  refine ⟨fun e s h => h.grows, ?_, Machine.linked_start context.host, ?_⟩
  · intro tokens nextId p st s hnode h
    have hproper : st.Proper := Program.node_proper hnode
    exact h.grows.mono fun f name _ hadds => ⟨hadds.1, hadds.2.declared?_eq hproper⟩
  · intro hh hm s h
    have hs : s.Linked := by
      rcases h with ⟨e, h⟩ | ⟨st, h⟩
      · exact h.linked hh hm trivial
      · exact h.linked hh hm trivial
    exact ⟨hs, fun f k g hg => hs.older.add_le hg⟩

/-- A block whose last statement fails, in a function that is called in it. -/
theorem frames_change_by_declarations_block :
    let tokens := Token.ofText "{ var a; fun f() { var b; b = a; nil(); } f(); }"
    let context : Context := ⟨.timed fun _ => .ok 0,
      Locals.extend {} (findingsIn (Program.ofTokens tokens 0).statements)⟩
    ∃ st s, Place.node? [(Program.ofTokens tokens 0).statements] ⟨0, [0]⟩ = some (.statement st) ∧
      (Activity.execute st).Reaches context (.start context.host) s ∧ s.store.frames.size = 3 ∧
      ((Machine.start context.host).store.Grows s.store
        fun f name => f = Store.globalFrame ∧ st.declared? = some name) ∧ s.Linked := by
  intro tokens context
  have hrun : (((Place.node? [(Program.ofTokens tokens 0).statements] ⟨0, [0]⟩).bind
      Node.statement?).bind fun st => (Run.execute context 30 st (.start context.host)).state?.map
        (·.store.frames.size)) = some 3 := by decide +kernel
  obtain ⟨st, hst, hstate⟩ := Option.bind_eq_some_iff.1 hrun
  obtain ⟨s, hs, hsize⟩ := Option.map_eq_some_iff.1 hstate
  obtain ⟨node, hnode, hstatement⟩ := Option.bind_eq_some_iff.1 hst
  obtain rfl := Node.eq_of_statement? hstatement
  have hreaches : (Activity.execute st).Reaches context (.start context.host) s := .inr ⟨30, hs⟩
  obtain ⟨-, hgrows, hstart, hlinked⟩ := frames_change_by_declarations context (.start context.host)
  exact ⟨st, s, hnode, hreaches, hsize, hgrows tokens 0 ⟨0, [0]⟩ st s hnode hreaches,
    (hlinked (Host.discreet_timed fun _ => .ok 0) hstart s (.inr ⟨st, hreaches⟩)).1⟩

end LoxLang
