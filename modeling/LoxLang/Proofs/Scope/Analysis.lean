import LoxLang.Proofs.Scope.Faults
import LoxLang.Proofs.Syntax.StatementDerivation
import LoxLang.Token.Stream

/-!
The walk finds what the places of declarations say.

A walk that comes to a node has scopes that mirror what is declared up to there, and names are unready
in the innermost one just where they are in their own initializers (`Reflects`).  So the findings in each
expression and each statement are those of the nodes within it, and behind a statement the scopes mirror
what is declared up to there (`Expr.covers`, `Stmt.passed`).  For a whole program this gives all faults,
in the order of the walk, and the distance of each reference (`findingsIn_exact`).
-/

namespace LoxLang

variable {programs : List (List Stmt)} {p : Place} {n : Node} {scopes outer : Scopes} {i k : Nat}
  {name : String} {e : Expr} {inFunction : Bool} {result : List Finding × Scopes}

/-! ## Initializers and functions around a place -/

theorem inOwnInitializer_below (hn : p.node? programs = some n) (ho : n.opensScope = false) :
    InOwnInitializer programs (p.below i) name ↔ InOwnInitializer programs p name ∨
      p.enclosing programs ≠ [] ∧
        ∃ declared initializer, n = .statement (.var declared initializer) ∧ declared.lexeme = name := by
  rw [InOwnInitializer, InOwnInitializer, Initializing, Initializing, Place.above_below,
    Place.enclosing_below hn ho, ← and_or_left]
  refine and_congr_right fun _ => ?_
  constructor
  · rintro ⟨q, hq, declared, initializer, hnode, hname, hscopes⟩
    rcases List.mem_cons.1 hq with rfl | hq
    · exact .inr ⟨declared, initializer, Option.some.inj (hn.symm.trans hnode), hname⟩
    · exact .inl ⟨q, hq, declared, initializer, hnode, hname, hscopes⟩
  · rintro (⟨q, hq, hrest⟩ | ⟨declared, initializer, rfl, hname⟩)
    · exact ⟨q, List.mem_cons_of_mem _ hq, hrest⟩
    · exact ⟨p, List.mem_cons_self, declared, initializer, hn, hname, rfl⟩

/-- Directly in a block or a function nothing is in an initializer. -/
theorem not_inOwnInitializer_of_opens (hn : p.node? programs = some n) (ho : n.opensScope = true) :
    ¬ InOwnInitializer programs (p.below i) name := by
  rintro ⟨-, q, hq, declared, initializer, -, -, hscopes⟩
  rw [List.drop_zero, Place.enclosing_below_of_opens hn ho] at hscopes
  have hmem : p ∈ q.enclosing programs := hscopes ▸ List.mem_cons_self
  exact Place.not_mem_above_of_within (Place.mem_above_below.1 hq)
    (Place.mem_above_of_mem_enclosing hmem)

theorem inFunction_below (hn : p.node? programs = some n) :
    InFunction programs (p.below i) ↔ InFunction programs p ∨ n.function?.isSome = true := by
  constructor
  · rintro ⟨q, hq, function, hf⟩
    rcases List.mem_cons.1 hq with heq | hq
    · obtain rfl : q = p := heq
      rw [hn] at hf
      exact .inr (Option.isSome_of_eq_some hf)
    · exact .inl ⟨q, hq, function, hf⟩
  · rintro (⟨q, hq, hf⟩ | hf)
    · exact ⟨q, List.mem_cons_of_mem _ hq, hf⟩
    · obtain ⟨function, hf⟩ := Option.isSome_iff_exists.1 hf
      exact ⟨p, List.mem_cons_self, function, by rw [hn, Option.bind_some, hf]⟩

theorem inFunction_below_of_none (hn : p.node? programs = some n) (hf : n.function? = none) :
    InFunction programs (p.below i) ↔ InFunction programs p := by
  rw [inFunction_below hn, hf]
  exact or_iff_left Bool.false_ne_true

theorem Place.closed_of_expressions (es : List Expr) (h : n.children = es.map .expression) :
    Place.Closed n := by
  refine .inr fun c hc => ?_
  rw [h] at hc
  obtain ⟨e, -, rfl⟩ := List.mem_map.1 hc
  exact ⟨e, rfl⟩

/-! ## Scopes of a walk -/

/-- No name is unready in the innermost scope. -/
def Scopes.Calm (scopes : Scopes) : Prop := ∀ name, scopes.ready? 0 name ≠ some false

theorem Scopes.bind_eq_inner (scopes : Scopes) (bound : Token) :
    scopes.bind bound = Scopes.inner (fun s => (s.declare bound.lexeme).define bound.lexeme) scopes := by
  cases scopes <;> rfl

theorem Mirrors.bind {declared : Token} (h : Mirrors programs (p.enclosing programs) p scopes)
    (hn : p.node? programs = some n) (hd : n.declared? = some declared) :
    Mirrors programs (p.enclosing programs) (p.below 0) (scopes.bind declared) := by
  rw [Scopes.bind_eq_inner]
  have hdeclared : (p.node? programs).bind Node.declared? = some declared := by
    rw [hn, Option.bind_some, hd]
  exact h.declare hdeclared fun s name => Scope.declares_bind s _ name

theorem Scopes.Calm.bind (h : scopes.Calm) (bound : Token) : (scopes.bind bound).Calm :=
  fun name hready => h name (Scopes.ready?_bind_false hready)

/-- The scopes of a walk that has come to `p`. -/
structure Reflects (programs : List (List Stmt)) (p : Place) (scopes : Scopes) : Prop where
  mirrors : Mirrors programs (p.enclosing programs) p scopes
  unready : ∀ name, scopes.ready? 0 name = some false ↔ InOwnInitializer programs p name

/-- What the walk through a statement, or several, comes to: the findings from `p` up to `stop`, and the
scopes there. -/
structure Passed (programs : List (List Stmt)) (p stop : Place) (result : List Finding × Scopes) :
    Prop where
  covers : Covers programs p stop result.1
  mirrors : Mirrors programs (p.enclosing programs) stop result.2
  calm : result.2.Calm

namespace Reflects

/-- At the first child of a node that opens no scope and declares nothing. -/
theorem first (h : Reflects programs p scopes) (hn : p.node? programs = some n)
    (ho : n.opensScope = false) (hd : n.declared? = none) :
    Reflects programs (p.below 0) scopes where
  mirrors := by
    rw [Place.enclosing_below hn ho]
    exact h.mirrors.first hn hd
  unready := by
    intro name
    rw [h.unready, inOwnInitializer_below hn ho]
    refine ⟨.inl, fun h => h.resolve_right ?_⟩
    rintro ⟨-, declared, initializer, rfl, -⟩
    cases hd

/-- In the initializer of a declaration. -/
theorem initializer (h : Reflects programs p scopes) {declared : Token} {value : Option Expr}
    (hn : p.node? programs = some (.statement (.var declared value))) :
    Reflects programs (p.below 0) (scopes.declare declared) where
  mirrors := by
    rw [Place.enclosing_below hn rfl]
    have hdeclared : (p.node? programs).bind Node.declared? = some declared := by
      rw [hn]
      rfl
    exact h.mirrors.declare hdeclared fun s name => Scope.declares_declare s _ name
  unready := by
    intro name
    have hold := h.unready name
    rw [inOwnInitializer_below hn rfl, ← hold]
    have hvar : (∃ other initializer, Node.statement (.var declared value) =
        .statement (.var other initializer) ∧ other.lexeme = name) ↔ name = declared.lexeme := by
      constructor
      · rintro ⟨other, initializer, heq, hname⟩
        cases heq
        exact hname.symm
      · exact fun hname => ⟨declared, value, rfl, hname.symm⟩
    rw [hvar]
    have hmirrors := h.mirrors
    generalize p.enclosing programs = places at hmirrors
    cases hmirrors with
    | nil => exact iff_of_false (fun h => nomatch h) fun h => h.elim (fun h => nomatch h) (·.1 rfl)
    | @cons place scope places rest _ _ =>
      have hready : Scopes.ready? (Scopes.declare (scope :: rest) declared) 0 name =
          (scope.declare declared.lexeme).ready? name := rfl
      rw [hready, Scope.ready?_declare]
      by_cases hname : name = declared.lexeme
      · rw [if_pos hname]
        exact iff_of_true rfl (.inr ⟨List.cons_ne_nil _ _, hname⟩)
      · rw [if_neg hname]
        exact ⟨.inl, fun h => h.resolve_right fun h => hname h.2⟩

/-- At the child behind an expression. -/
theorem next (h : Reflects programs (p.below i) scopes)
    (hn : (p.below i).node? programs = some (.expression e)) :
    Reflects programs (p.below (i + 1)) scopes :=
  ⟨h.mirrors.next hn, h.unready⟩

/-- At the child behind a statement. -/
theorem after (h : Reflects programs (p.below i) scopes) (hcalm : scopes.Calm)
    (hp : Passed programs (p.below i) (p.below (i + 1)) result) :
    Reflects programs (p.below (i + 1)) result.2 where
  mirrors := hp.mirrors
  unready := by
    intro name
    have hnot : ¬ InOwnInitializer programs (p.below (i + 1)) name :=
      fun hinit => hcalm name ((h.unready name).2 hinit)
    exact iff_of_false (hp.calm name) hnot

end Reflects

/-- At the first child of a block or a function. -/
theorem reflects_inside (h : Mirrors programs (p.enclosing programs) (p.below 0) outer)
    (hn : p.node? programs = some n) (ho : n.opensScope = true) {scope : Scope}
    (hdeclares : ∀ name, scope.declares name = true ↔
      ∃ function, n.function? = some function ∧ name ∈ function.1.map (·.lexeme))
    (hready : ∀ name, scope.ready? name ≠ some false) :
    Reflects programs (p.below 0) (scope :: outer) ∧ Scopes.Calm (scope :: outer) := by
  refine ⟨⟨?_, fun name => ?_⟩, hready⟩
  · rw [Place.enclosing_below_of_opens hn ho]
    refine .cons (fun name => ?_) h
    rw [hdeclares, DeclaredIn, hn, Option.bind_some]
    refine ⟨.inl, fun h => h.resolve_right ?_⟩
    -- a statement that stands in this scope is below it, and so behind the first child
    rintro ⟨q, declared, -, -, hhead, hq⟩
    have hbefore := Place.before_of_mem_above (Place.mem_above_of_head?_enclosing hhead)
    rcases Place.before_below_zero.1 hq with hq | rfl
    · exact Place.not_before_self q (hq.trans hbefore)
    · exact Place.not_before_self q hbefore
  · exact iff_of_false (hready name) (not_inOwnInitializer_of_opens hn ho)

theorem reflects_block {body : List Stmt} (h : Reflects programs p scopes)
    (hn : p.node? programs = some (.statement (.block body))) :
    Reflects programs (p.below 0) ({} :: scopes) ∧ Scopes.Calm ({} :: scopes) := by
  refine reflects_inside (h.mirrors.first hn rfl) hn rfl (fun name => ?_) fun name h => nomatch h
  exact iff_of_false Bool.false_ne_true fun ⟨function, hf, _⟩ => nomatch hf

theorem reflects_function (h : Mirrors programs (p.enclosing programs) (p.below 0) outer)
    (hn : p.node? programs = some n) {params : List Token} {body : List Stmt}
    (hf : n.function? = some (params, body)) :
    Reflects programs (p.below 0) (Scopes.parameters ({} :: outer) params).2 ∧
      (Scopes.parameters ({} :: outer) params).2.Calm := by
  obtain ⟨scope, heq, hready⟩ := Scopes.parameters_cons {} outer params
  rw [heq]
  refine reflects_inside h hn (Node.opensScope_of_function hf).1 (fun name => ?_) fun name => ?_
  · rw [Scope.declares, hready, hf]
    constructor
    · intro hdeclares
      by_cases hmem : name ∈ params.map (·.lexeme)
      · exact ⟨_, rfl, hmem⟩
      · rw [if_neg hmem] at hdeclares
        cases hdeclares
    · rintro ⟨_, heq, hmem⟩
      cases heq
      rw [if_pos hmem]
      rfl
  · rw [hready]
    intro hfalse
    split at hfalse
    · cases hfalse
    · cases hfalse

namespace Passed

theorem next (h : Passed programs (p.below i) ((p.below i).below n.children.length) result)
    (hn : (p.below i).node? programs = some n) :
    Passed programs (p.below i) (p.below (i + 1)) result :=
  ⟨h.covers.next hn (.inl rfl), h.mirrors.after hn, h.calm⟩

end Passed

/-! ## Expressions and statements -/

mutual

theorem Expr.covers (e : Expr) {p : Place} {scopes : Scopes}
    (hn : p.node? programs = some (.expression e)) (h : Reflects programs p scopes) :
    Covers programs p (p.below (Node.expression e).children.length) (e.findings scopes) := by
  cases e with
  | constant value => exact covers_silent hn trivial
  | read id name => exact covers_read hn h.mirrors (h.unready name.lexeme)
  | grouping inner =>
    have hchild := Place.node?_below hn 0
    have hinner := inner.covers hchild (h.first hn rfl rfl)
    exact (covers_silent hn trivial).append (hinner.next hchild (.inl rfl))
  | unary operator operand =>
    have hchild := Place.node?_below hn 0
    have hoperand := operand.covers hchild (h.first hn rfl rfl)
    exact (covers_silent hn trivial).append (hoperand.next hchild (.inl rfl))
  | assign id name value =>
    have hchild := Place.node?_below hn 0
    have hvalue := value.covers hchild (h.first hn rfl rfl)
    exact ((covers_assign hn h.mirrors).append (hvalue.next hchild (.inl rfl))).comm rfl
  | binary left operator right =>
    have hleft := Place.node?_below hn 0
    have hright := Place.node?_below hn 1
    have hfirst := h.first hn rfl rfl
    have hinLeft := (left.covers hleft hfirst).next hleft (.inl rfl)
    have hinRight := (right.covers hright (hfirst.next hleft)).next hright (.inl rfl)
    exact (covers_silent hn trivial).append (hinLeft.append hinRight)
  | logical left operator right =>
    have hleft := Place.node?_below hn 0
    have hright := Place.node?_below hn 1
    have hfirst := h.first hn rfl rfl
    have hinLeft := (left.covers hleft hfirst).next hleft (.inl rfl)
    have hinRight := (right.covers hright (hfirst.next hleft)).next hright (.inl rfl)
    exact (covers_silent hn trivial).append (hinLeft.append hinRight)
  | call callee paren arguments =>
    have hcallee := Place.node?_below hn 0
    have hfirst := h.first hn rfl rfl
    have hinCallee := (callee.covers hcallee hfirst).next hcallee (.inl rfl)
    have hinArguments := Expr.coversAll arguments hn (i := 1) rfl
      (by rw [Node.children, List.length_cons, List.length_map, Nat.add_comm]) (hfirst.next hcallee)
    exact (covers_silent hn trivial).append (hinCallee.append hinArguments)
  | function keyword params body =>
    have hown := covers_declaring hn (.inr rfl) h.mirrors scopes
    obtain ⟨hreflects, hcalm⟩ := reflects_function (h.mirrors.first hn rfl) hn rfl
    have hbody := Stmt.passedAll body hn (i := 0) rfl (by simp [Node.children]) hreflects hcalm
      (iff_of_true rfl ((inFunction_below hn).2 (.inr rfl)))
    exact hown.append hbody.covers
termination_by structural e

theorem Expr.coversAll (es : List Expr) {p : Place} {n : Node} {scopes : Scopes} {i : Nat}
    (hn : p.node? programs = some n) (hc : n.children.drop i = es.map .expression)
    (hi : i + es.length = n.children.length) (h : Reflects programs (p.below i) scopes) :
    Covers programs (p.below i) (p.below n.children.length) (Expr.findingsAll scopes es) := by
  cases es with
  | nil => exact hi ▸ .refl (p.below i)
  | cons e es =>
    obtain ⟨hnode, hrest⟩ := Place.node?_below_of_drop hn hc
    have hhere := (e.covers hnode h).next hnode (.inl rfl)
    have hthere := Expr.coversAll es hn hrest
      (by rw [List.length_cons] at hi; omega) (h.next hnode)
    exact hhere.append hthere
termination_by structural es

theorem Expr.coversOption (o : Option Expr) {p : Place} {n : Node} {scopes : Scopes} {i : Nat}
    (hn : p.node? programs = some n) (hc : n.children.drop i = o.toList.map .expression)
    (hi : i + o.toList.length = n.children.length) (h : Reflects programs (p.below i) scopes) :
    Covers programs (p.below i) (p.below n.children.length) (Expr.findingsOption scopes o) := by
  cases o with
  | none => exact hi ▸ .refl (p.below i)
  | some e =>
    have hnode := (Place.node?_below_of_drop hn hc).1
    exact hi ▸ (e.covers hnode h).next hnode (.inl rfl)
termination_by structural o

theorem Stmt.passed (s : Stmt) {p : Place} {scopes : Scopes} {inFunction : Bool}
    (hn : p.node? programs = some (.statement s)) (h : Reflects programs p scopes)
    (hcalm : scopes.Calm) (hf : inFunction = true ↔ InFunction programs p) :
    Passed programs p (p.below (Node.statement s).children.length)
      (s.findings inFunction scopes) := by
  cases s with
  | expression value =>
    have hchild := Place.node?_below hn 0
    have hvalue := (value.covers hchild (h.first hn rfl rfl)).next hchild (.inl rfl)
    exact ⟨(covers_silent hn trivial).append hvalue, (h.mirrors.first hn rfl).behind hn
      (Place.closed_of_expressions [value] rfl), hcalm⟩
  | print keyword value =>
    have hchild := Place.node?_below hn 0
    have hvalue := (value.covers hchild (h.first hn rfl rfl)).next hchild (.inl rfl)
    exact ⟨(covers_silent hn trivial).append hvalue, (h.mirrors.first hn rfl).behind hn
      (Place.closed_of_expressions [value] rfl), hcalm⟩
  | var name initializer =>
    have hown : Covers programs p (p.below 0) (scopes.declarationFaults name ++ []) :=
      covers_declaring hn (.inl rfl) h.mirrors scopes
    rw [List.append_nil] at hown
    have hinitializer := Expr.coversOption initializer hn (i := 0) rfl (by simp [Node.children])
      (h.initializer hn)
    refine ⟨?_, (h.mirrors.bind hn rfl).behind hn
      (Place.closed_of_expressions initializer.toList rfl), hcalm.bind name⟩
    exact hown.append hinitializer
  | block body =>
    obtain ⟨hreflects, hinside⟩ := reflects_block h hn
    have hbody := Stmt.passedAll body hn (i := 0) rfl (by simp [Node.children]) hreflects hinside
      (hf.trans (inFunction_below_of_none hn rfl).symm)
    exact ⟨(covers_silent hn trivial).append hbody.covers,
      (h.mirrors.first hn rfl).behind hn (.inl rfl), hcalm⟩
  | ifElse condition thenBranch elseBranch =>
    have hcondition := Place.node?_below hn 0
    have hthen := Place.node?_below hn 1
    have hfirst := h.first hn rfl rfl
    have hinCondition := (condition.covers hcondition hfirst).next hcondition (.inl rfl)
    have hatThen := hfirst.next hcondition
    have hinThen := (thenBranch.passed hthen hatThen hcalm
      (hf.trans (inFunction_below_of_none hn rfl).symm)).next hthen
    have hinElse := Stmt.passedOption elseBranch hn (i := 2) rfl
      (by simp [Node.children]; omega) (hatThen.after hcalm hinThen) hinThen.calm
      (hf.trans (inFunction_below_of_none hn rfl).symm)
    refine ⟨(covers_silent hn trivial).append
      (hinCondition.append (hinThen.covers.append hinElse.covers)), ?_, hinElse.calm⟩
    exact Place.enclosing_below hn rfl 2 ▸ hinElse.mirrors
  | «while» condition body =>
    have hcondition := Place.node?_below hn 0
    have hbody := Place.node?_below hn 1
    have hfirst := h.first hn rfl rfl
    have hinCondition := (condition.covers hcondition hfirst).next hcondition (.inl rfl)
    have hinBody := (body.passed hbody (hfirst.next hcondition) hcalm
      (hf.trans (inFunction_below_of_none hn rfl).symm)).next hbody
    refine ⟨(covers_silent hn trivial).append (hinCondition.append hinBody.covers), ?_, hinBody.calm⟩
    exact Place.enclosing_below hn rfl 1 ▸ hinBody.mirrors
  | function name params body =>
    have hdeclared := h.mirrors.bind hn rfl
    have hown := covers_declaring hn (.inl rfl) h.mirrors (scopes.bind name)
    obtain ⟨hreflects, hinside⟩ := reflects_function hdeclared hn rfl
    have hbody := Stmt.passedAll body hn (i := 0) rfl (by simp [Node.children]) hreflects hinside
      (iff_of_true rfl ((inFunction_below hn).2 (.inr rfl)))
    have hfindings : (Stmt.findings inFunction scopes (.function name params body)).1 =
        (Node.statement (.function name params body)).declarationFindings scopes (scopes.bind name) ++
          (Stmt.findingsAll true (Scopes.parameters ({} :: scopes.bind name) params).2 body).1 :=
      (List.append_assoc _ _ _).symm
    exact ⟨hfindings ▸ hown.append hbody.covers, hdeclared.behind hn (.inl rfl), hcalm.bind name⟩
  | «return» keyword value =>
    have hvalue := Expr.coversOption value hn (i := 0) rfl (by simp [Node.children])
      (h.first hn rfl rfl)
    exact ⟨(covers_return hn hf).append hvalue, (h.mirrors.first hn rfl).behind hn
      (Place.closed_of_expressions value.toList rfl), hcalm⟩
termination_by structural s

theorem Stmt.passedAll (ss : List Stmt) {p : Place} {n : Node} {scopes : Scopes} {i : Nat}
    {inFunction : Bool} (hn : p.node? programs = some n)
    (hc : n.children.drop i = ss.map .statement) (hi : i + ss.length = n.children.length)
    (h : Reflects programs (p.below i) scopes) (hcalm : scopes.Calm)
    (hf : inFunction = true ↔ InFunction programs (p.below i)) :
    Passed programs (p.below i) (p.below n.children.length)
      (Stmt.findingsAll inFunction scopes ss) := by
  cases ss with
  | nil => exact hi ▸ ⟨.refl (p.below i), h.mirrors, hcalm⟩
  | cons s ss =>
    obtain ⟨hnode, hrest⟩ := Place.node?_below_of_drop hn hc
    have hhere := (s.passed hnode h hcalm hf).next hnode
    have hthere := Stmt.passedAll ss hn hrest (by rw [List.length_cons] at hi; omega)
      (h.after hcalm hhere) hhere.calm hf
    exact ⟨hhere.covers.append hthere.covers, hthere.mirrors, hthere.calm⟩
termination_by structural ss

theorem Stmt.passedOption (o : Option Stmt) {p : Place} {n : Node} {scopes : Scopes} {i : Nat}
    {inFunction : Bool} (hn : p.node? programs = some n)
    (hc : n.children.drop i = o.toList.map .statement) (hi : i + o.toList.length = n.children.length)
    (h : Reflects programs (p.below i) scopes) (hcalm : scopes.Calm)
    (hf : inFunction = true ↔ InFunction programs (p.below i)) :
    Passed programs (p.below i) (p.below n.children.length)
      (Stmt.findingsOption inFunction scopes o) := by
  cases o with
  | none => exact hi ▸ ⟨.refl (p.below i), h.mirrors, hcalm⟩
  | some s =>
    have hnode := (Place.node?_below_of_drop hn hc).1
    exact hi ▸ (s.passed hnode h hcalm hf).next hnode
termination_by structural o

end

/-! ## Programs -/

theorem covers_program (ss : List Stmt) :
    Covers [ss] ⟨0, []⟩ ((Place.mk 0 []).below ss.length) (findingsIn ss) := by
  have hn : (Place.mk 0 []).node? [ss] = some (.program ss) := rfl
  have htop : Reflects [ss] ((Place.mk 0 []).below 0) [] :=
    ⟨.nil, fun name => iff_of_false (fun h => nomatch h) fun h => h.1 rfl⟩
  have houtside : false = true ↔ InFunction [ss] ((Place.mk 0 []).below 0) := by
    rw [inFunction_below_of_none hn rfl]
    exact iff_of_false Bool.false_ne_true fun ⟨_, hq, _⟩ => nomatch hq
  have hpassed := Stmt.passedAll ss hn (i := 0) rfl (by simp [Node.children]) htop
    (fun name h => nomatch h) houtside
  have hlength : (Node.program ss).children.length = ss.length := List.length_map _
  exact (covers_silent hn trivial).append (hlength ▸ hpassed.covers)

/-- What the walk finds wrong belongs to its own phase. -/
theorem phase_of_mem_resolutionFaults {ss : List Stmt} {e : TokenError}
    (h : e ∈ resolutionFaults (findingsIn ss)) : e.cause.phase = .resolution := by
  obtain ⟨located, heq, -, hmem⟩ := (covers_program ss).faults
  rw [heq] at h
  obtain ⟨x, hx, rfl⟩ := List.mem_map.1 h
  exact ((hmem x).1 hx).1.phase_eq

/-- The whole stretch of a walk is the program. -/
theorem between_program {ss : List Stmt} {q : Place} (hq : (q.node? [ss]).isSome = true) :
    Place.Between ⟨0, []⟩ ((Place.mk 0 []).below ss.length) q := by
  have hn : (Place.mk 0 []).node? [ss] = some (.program ss) := rfl
  have hlength : (Node.program ss).children.length = ss.length := List.length_map _
  refine ⟨fun hbefore => List.not_lt_nil _ hbefore.2, ?_⟩
  obtain ⟨n, hnode⟩ := Option.isSome_iff_exists.1 hq
  have hprogram : 0 = q.program := (Nat.lt_one_iff.1 (Place.program_lt hnode)).symm
  rw [← hlength, Place.before_behind hn hq]
  exact .inr (Place.within_iff.2 ⟨hprogram, List.nil_suffix⟩)

/-- The faults in a program are those of the names at its places, in the order of a walk, and each
reference has the distance of the nearest scope that declares its name before it.  The table of what was
read from tokens has that distance for each reference, and no other entries. -/
theorem findingsIn_exact :
    (∀ ss : List Stmt,
      (∃ located : List Located, resolutionFaults (findingsIn ss) = located.map (·.error) ∧
        located.Pairwise Located.Earlier ∧
        ∀ x, x ∈ located ↔ FaultAt [ss] x.place x.slot x.error) ∧
      ∀ use distance, .reference use distance ∈ findingsIn ss ↔
        ∃ p : Place, (p.node? [ss]).bind Node.reference? = some use ∧
          ∀ d, distance = some d ↔ NearestAt [ss] p use.name.lexeme d) ∧
    ∀ (tokens : List Token) (nextId : NodeId),
      let ss := (Program.ofTokens tokens nextId).statements
      let table := Locals.extend {} (findingsIn ss)
      (∀ (p : Place) (use : Reference), (p.node? [ss]).bind Node.reference? = some use →
        ∀ d, table[use.id]? = some d ↔ NearestAt [ss] p use.name.lexeme d) ∧
      ∀ (id : NodeId) (d : Nat), table[id]? = some d →
        ∃ (p : Place) (use : Reference), (p.node? [ss]).bind Node.reference? = some use ∧ use.id = id := by
  have hreferences : ∀ (ss : List Stmt) use distance, .reference use distance ∈ findingsIn ss ↔
      ∃ p : Place, (p.node? [ss]).bind Node.reference? = some use ∧
        ∀ d, distance = some d ↔ NearestAt [ss] p use.name.lexeme d := by
    intro ss use distance
    rw [(covers_program ss).references]
    refine exists_congr fun p => and_iff_right_of_imp fun hp => ?_
    obtain ⟨n, hn, -⟩ := Option.bind_eq_some_iff.1 hp.1
    exact between_program (Option.isSome_of_eq_some hn)
  refine ⟨fun ss => ⟨?_, hreferences ss⟩, ?_⟩
  · obtain ⟨located, heq, hsorted, hmem⟩ := (covers_program ss).faults
    refine ⟨located, heq, hsorted, fun x => (hmem x).trans (and_iff_left_of_imp fun hx => ?_)⟩
    exact between_program hx.isSome_node?
  · intro tokens nextId ss table
    obtain ⟨-, hnodup, -⟩ := Program.statements_numbered tokens nextId
    have hids : (findingsIn ss).filterMap (·.id?) = Stmt.idsAll ss := Stmt.ids_findingsAll ss false []
    constructor
    · intro p use huse d
      obtain ⟨distance, hdistance⟩ := exists_distance [ss] p use.name.lexeme
      have hfound := (hreferences ss use distance).2 ⟨p, huse, hdistance⟩
      have hentry : table[use.id]? = distance :=
        getElem?_extend_of_mem (hids ▸ hnodup) Std.TreeMap.getElem?_emptyc hfound
      rw [hentry, hdistance]
    · intro id d hd
      have hmem : id ∈ (findingsIn ss).filterMap (·.id?) := by
        refine Classical.byContradiction fun hnot => ?_
        have hnone : table[id]? = none :=
          (getElem?_extend_of_not_mem hnot).trans Std.TreeMap.getElem?_emptyc
        cases hnone.symm.trans hd
      obtain ⟨finding, hfinding, hid⟩ := List.mem_filterMap.1 hmem
      cases finding with
      | fault e => cases hid
      | reference use distance =>
        obtain ⟨p, hp, -⟩ := (hreferences ss use distance).1 hfinding
        exact ⟨p, use, hp, Option.some.inj hid⟩

/-- A variable that is read in a function, in a block of the block that declares it. -/
theorem findingsIn_exact_closure :
    let ss := (Program.ofTokens (Token.ofText "{ var a = 1; { fun f(b) { return a; } } }") 0).statements
    ∃ (p : Place) (use : Reference), (p.node? [ss]).bind Node.reference? = some use ∧
      (Locals.extend {} (findingsIn ss))[use.id]? = some 2 ∧ NearestAt [ss] p use.name.lexeme 2 := by
  intro ss
  let p : Place := ⟨0, [0, 0, 0, 1, 0]⟩
  have hfound : ((p.node? [ss]).bind Node.reference?).any
      (fun use => (Locals.extend {} (findingsIn ss))[use.id]? = some 2) = true := by decide +kernel
  obtain ⟨use, huse, hentry⟩ := (Option.any_eq_true ..).1 hfound
  have hentry := of_decide_eq_true hentry
  exact ⟨p, use, huse, hentry, ((findingsIn_exact.2 _ 0).1 p use huse 2).1 hentry⟩

end LoxLang
