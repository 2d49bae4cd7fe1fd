import LoxLang.Proofs.Scope.References
import LoxLang.Proofs.Syntax.Alike

/-!
Resolution looks at names only.

If the lexemes of tokens stay as they are, the findings in a relabelled tree are the relabelled
findings (`Stmt.findings_relabelAll`), so lines and node numbers neither make nor mend a fault.  Trees
that are alike, both resolved in the same scopes and recorded in tables, have node numbers with the
same distances (`Stmt.LikeAll.settle`).
-/

namespace LoxLang

def TokenError.relabel (f : Token → Token) (e : TokenError) : TokenError := { e with token := f e.token }

def Finding.relabel (f : Token → Token) (g : NodeId → NodeId) : Finding → Finding
  | .reference use distance => .reference ⟨g use.id, f use.name, use.isAssignment⟩ distance
  | .fault e => .fault (e.relabel f)

theorem resolutionFaults_map_relabel (f : Token → Token) (g : NodeId → NodeId)
    (findings : List Finding) :
    resolutionFaults (findings.map (·.relabel f g)) =
      (resolutionFaults findings).map (·.relabel f) := by
  unfold resolutionFaults
  rw [List.filterMap_map, List.map_filterMap]
  congr 1
  funext x
  cases x <;> rfl

/-! ## Findings in relabelled trees -/

section

set_option linter.unusedSectionVars false

variable {f : Token → Token} (hf : ∀ t, (f t).lexeme = t.lexeme) (g : NodeId → NodeId)

include hf

theorem declare_relabel (scopes : Scopes) (name : Token) :
    scopes.declare (f name) = scopes.declare name := by
  simp only [Scopes.declare, hf]

theorem define_relabel (scopes : Scopes) (name : Token) :
    scopes.define (f name) = scopes.define name := by
  simp only [Scopes.define, hf]

theorem declarationFaults_relabel (scopes : Scopes) (name : Token) :
    scopes.declarationFaults (f name) = (scopes.declarationFaults name).map (·.relabel f g) := by
  unfold Scopes.declarationFaults
  cases scopes with
  | nil => rfl
  | cons s rest =>
    simp only [hf]
    split <;> rfl

theorem readFaults_relabel (scopes : Scopes) (name : Token) :
    scopes.readFaults (f name) = (scopes.readFaults name).map (·.relabel f g) := by
  unfold Scopes.readFaults
  cases scopes with
  | nil => rfl
  | cons s rest =>
    simp only [hf]
    split <;> rfl

theorem parameters_relabel (scopes : Scopes) (params : List Token) :
    scopes.parameters (params.map f) =
      ((scopes.parameters params).1.map (·.relabel f g), (scopes.parameters params).2) := by
  induction params generalizing scopes with
  | nil => rfl
  | cons name names ih =>
    simp only [List.map_cons, Scopes.parameters, declare_relabel hf, define_relabel hf, ih,
      declarationFaults_relabel hf g, List.map_append]

mutual

theorem Expr.findings_relabel (e : Expr) (scopes : Scopes) :
    (e.relabel f g).findings scopes = (e.findings scopes).map (·.relabel f g) := by
  cases e with
  | constant value => rfl
  | grouping inner => exact inner.findings_relabel scopes
  | unary operator operand => exact operand.findings_relabel scopes
  | binary left operator right =>
    simp only [Expr.relabel, Expr.findings, left.findings_relabel, right.findings_relabel,
      List.map_append]
  | logical left operator right =>
    simp only [Expr.relabel, Expr.findings, left.findings_relabel, right.findings_relabel,
      List.map_append]
  | read id name =>
    simp only [Expr.relabel, Expr.findings, readFaults_relabel hf g, hf, List.map_append]
    rfl
  | assign id name value =>
    simp only [Expr.relabel, Expr.findings, value.findings_relabel, hf, List.map_append]
    rfl
  | call callee paren arguments =>
    simp only [Expr.relabel, Expr.findings, callee.findings_relabel,
      Expr.findings_relabelAll arguments, List.map_append]
  | function keyword params body =>
    simp only [Expr.relabel, Expr.findings, parameters_relabel hf g,
      Stmt.findings_relabelAll body, List.map_append]
termination_by structural e

theorem Expr.findings_relabelAll (es : List Expr) (scopes : Scopes) :
    Expr.findingsAll scopes (Expr.relabelAll f g es) =
      (Expr.findingsAll scopes es).map (·.relabel f g) := by
  cases es with
  | nil => rfl
  | cons e es =>
    simp only [Expr.relabelAll, Expr.findingsAll, e.findings_relabel, Expr.findings_relabelAll es,
      List.map_append]
termination_by structural es

theorem Expr.findings_relabelOption (o : Option Expr) (scopes : Scopes) :
    Expr.findingsOption scopes (Expr.relabelOption f g o) =
      (Expr.findingsOption scopes o).map (·.relabel f g) := by
  cases o with
  | none => rfl
  | some e => exact e.findings_relabel scopes
termination_by structural o

theorem Stmt.findings_relabel (s : Stmt) (inFunction : Bool) (scopes : Scopes) :
    (s.relabel f g).findings inFunction scopes =
      ((s.findings inFunction scopes).1.map (·.relabel f g), (s.findings inFunction scopes).2) := by
  cases s with
  | expression value => simp only [Stmt.relabel, Stmt.findings, value.findings_relabel]
  | print keyword value => simp only [Stmt.relabel, Stmt.findings, value.findings_relabel]
  | var name initializer =>
    simp only [Stmt.relabel, Stmt.findings, declare_relabel hf, define_relabel hf,
      declarationFaults_relabel hf g, Expr.findings_relabelOption initializer, List.map_append]
  | block body => simp only [Stmt.relabel, Stmt.findings, Stmt.findings_relabelAll body]
  | ifElse condition thenBranch elseBranch =>
    simp only [Stmt.relabel, Stmt.findings, condition.findings_relabel,
      thenBranch.findings_relabel, Stmt.findings_relabelOption elseBranch, List.map_append]
  | «while» condition body =>
    simp only [Stmt.relabel, Stmt.findings, condition.findings_relabel, body.findings_relabel,
      List.map_append]
  | function name params body =>
    simp only [Stmt.relabel, Stmt.findings, declare_relabel hf, define_relabel hf,
      declarationFaults_relabel hf g, parameters_relabel hf g, Stmt.findings_relabelAll body,
      List.map_append]
  | «return» keyword value =>
    simp only [Stmt.relabel, Stmt.findings, Expr.findings_relabelOption value, List.map_append]
    cases inFunction <;> rfl
termination_by structural s

theorem Stmt.findings_relabelAll (ss : List Stmt) (inFunction : Bool) (scopes : Scopes) :
    Stmt.findingsAll inFunction scopes (Stmt.relabelAll f g ss) =
      ((Stmt.findingsAll inFunction scopes ss).1.map (·.relabel f g),
        (Stmt.findingsAll inFunction scopes ss).2) := by
  cases ss with
  | nil => rfl
  | cons s ss =>
    simp only [Stmt.relabelAll, Stmt.findingsAll, s.findings_relabel, Stmt.findings_relabelAll ss,
      List.map_append]
termination_by structural ss

theorem Stmt.findings_relabelOption (o : Option Stmt) (inFunction : Bool) (scopes : Scopes) :
    Stmt.findingsOption inFunction scopes (Stmt.relabelOption f g o) =
      ((Stmt.findingsOption inFunction scopes o).1.map (·.relabel f g),
        (Stmt.findingsOption inFunction scopes o).2) := by
  cases o with
  | none => rfl
  | some s => exact s.findings_relabel inFunction scopes
termination_by structural o

end

theorem resolutionFaults_relabel (program : List Stmt) :
    resolutionFaults (findingsIn (Stmt.relabelAll f g program)) =
      (resolutionFaults (findingsIn program)).map (·.relabel f) := by
  rw [findingsIn, Stmt.findings_relabelAll hf g]
  exact resolutionFaults_map_relabel f g _

end

/-! ## Node numbers with the same distances -/

/-- Numbers that have been given out and have the same entry in two tables. -/
def SameDistance (table table' : Locals) (bound bound' : NodeId) (i j : NodeId) : Prop :=
  i < bound ∧ j < bound' ∧ table[i]? = table'[j]?

theorem SameDistance.mono {table table' later later' : Locals} {bound bound' high high' : NodeId}
    {i j : NodeId} (h : SameDistance table table' bound bound' i j) (hb : bound ≤ high)
    (hb' : bound' ≤ high') (ht : ∀ id < bound, later[id]? = table[id]?)
    (ht' : ∀ id < bound', later'[id]? = table'[id]?) : SameDistance later later' high high' i j := by
  obtain ⟨hi, hj, he⟩ := h
  refine ⟨Nat.lt_of_lt_of_le hi hb, Nat.lt_of_lt_of_le hj hb', ?_⟩
  rw [ht i hi, ht' j hj, he]

section

set_option linter.unusedSectionVars false

variable {r : Token → Token → Prop} {q : NodeId → NodeId → Prop} {table table' : Locals}
  {bound bound' : NodeId}

/-- Two references to one name, recorded at the same place. -/
theorem sameDistance_of_recorded {scopes : Scopes} {use use' : Reference}
    (hn : use.name.lexeme = use'.name.lexeme)
    (h : Recorded table bound [.reference use (scopes.distance? use.name.lexeme)])
    (h' : Recorded table' bound' [.reference use' (scopes.distance? use'.name.lexeme)]) :
    SameDistance table table' bound bound' use.id use'.id := by
  obtain ⟨hi, he⟩ := h.reference
  obtain ⟨hj, he'⟩ := h'.reference
  exact ⟨hi, hj, by rw [he, he', hn]⟩

variable (hr : ∀ t t', r t t' → t.lexeme = t'.lexeme)

include hr

theorem declare_of_rel {name name' : Token} (h : r name name') (scopes : Scopes) :
    scopes.declare name = scopes.declare name' := by
  simp only [Scopes.declare, hr _ _ h]

theorem define_of_rel {name name' : Token} (h : r name name') (scopes : Scopes) :
    scopes.define name = scopes.define name' := by
  simp only [Scopes.define, hr _ _ h]

theorem parameters_of_rel {params params' : List Token} (h : List.Forall₂ r params params')
    (scopes : Scopes) : (scopes.parameters params).2 = (scopes.parameters params').2 := by
  induction h generalizing scopes with
  | nil => rfl
  | cons hn _ ih =>
    simp only [Scopes.parameters, declare_of_rel hr hn, define_of_rel hr hn]
    exact ih _

mutual

theorem Expr.Like.settle {e e' : Expr} (h : Expr.Like r q e e') (scopes : Scopes) :
    Recorded table bound (e.findings scopes) → Recorded table' bound' (e'.findings scopes) →
      Expr.Like r (SameDistance table table' bound bound') e e' :=
  match h with
  | .constant => fun _ _ => .constant
  | .grouping he => fun hs hs' => .grouping (he.settle scopes hs hs')
  | .unary ho he => fun hs hs' => .unary ho (he.settle scopes hs hs')
  | .binary hl ho hright => fun hs hs' =>
    .binary (hl.settle scopes hs.left hs'.left) ho (hright.settle scopes hs.right hs'.right)
  | .logical hl ho hright => fun hs hs' =>
    .logical (hl.settle scopes hs.left hs'.left) ho (hright.settle scopes hs.right hs'.right)
  | .read _ hn => fun hs hs' =>
    .read (sameDistance_of_recorded (hr _ _ hn) hs.right hs'.right) hn
  | .assign _ hn hv => fun hs hs' =>
    .assign (sameDistance_of_recorded (hr _ _ hn) hs.right hs'.right) hn
      (hv.settle scopes hs.left hs'.left)
  | .call hc hp has => fun hs hs' =>
    .call (hc.settle scopes hs.left hs'.left) hp (has.settle scopes hs.right hs'.right)
  | .function hk hps hb => fun hs hs' => by
    have hbody := hb.settle true (Scopes.parameters ({} :: scopes) _).2 hs.right
    rw [parameters_of_rel hr hps] at hbody
    exact .function hk hps (hbody hs'.right).1
termination_by structural h

theorem Expr.LikeAll.settle {es es' : List Expr} (h : Expr.LikeAll r q es es') (scopes : Scopes) :
    Recorded table bound (Expr.findingsAll scopes es) →
      Recorded table' bound' (Expr.findingsAll scopes es') →
      Expr.LikeAll r (SameDistance table table' bound bound') es es' :=
  match h with
  | .nil => fun _ _ => .nil
  | .cons he hes => fun hs hs' =>
    .cons (he.settle scopes hs.left hs'.left) (hes.settle scopes hs.right hs'.right)
termination_by structural h

theorem Expr.LikeOption.settle {o o' : Option Expr} (h : Expr.LikeOption r q o o')
    (scopes : Scopes) :
    Recorded table bound (Expr.findingsOption scopes o) →
      Recorded table' bound' (Expr.findingsOption scopes o') →
      Expr.LikeOption r (SameDistance table table' bound bound') o o' :=
  match h with
  | .none => fun _ _ => .none
  | .some he => fun hs hs' => .some (he.settle scopes hs hs')
termination_by structural h

theorem Stmt.Like.settle {s s' : Stmt} (h : Stmt.Like r q s s') (inFunction : Bool)
    (scopes : Scopes) :
    Recorded table bound (s.findings inFunction scopes).1 →
      Recorded table' bound' (s'.findings inFunction scopes).1 →
      Stmt.Like r (SameDistance table table' bound bound') s s' ∧
        (s.findings inFunction scopes).2 = (s'.findings inFunction scopes).2 :=
  match h with
  | .expression he => fun hs hs' => ⟨.expression (he.settle scopes hs hs'), rfl⟩
  | .print hk he => fun hs hs' => ⟨.print hk (he.settle scopes hs hs'), rfl⟩
  | .var hn ho => fun hs hs' => by
    have hvalue := ho.settle (scopes.declare _) hs.right
    rw [declare_of_rel hr hn] at hvalue
    refine ⟨.var hn (hvalue hs'.right), ?_⟩
    simp only [Stmt.findings, declare_of_rel hr hn, define_of_rel hr hn]
  | .block hb => fun hs hs' => ⟨.block (hb.settle inFunction ({} :: scopes) hs hs').1, rfl⟩
  | .ifElse hc ht ho => fun hs hs' => by
    obtain ⟨hthen, hbetween⟩ := ht.settle inFunction scopes hs.right.left hs'.right.left
    have helse := ho.settle inFunction _ hs.right.right
    rw [hbetween] at helse
    obtain ⟨helse, hafter⟩ := helse hs'.right.right
    refine ⟨.ifElse (hc.settle scopes hs.left hs'.left) hthen helse, ?_⟩
    simp only [Stmt.findings, hbetween, hafter]
  | .while hc hb => fun hs hs' => by
    obtain ⟨hbody, hafter⟩ := hb.settle inFunction scopes hs.right hs'.right
    exact ⟨.while (hc.settle scopes hs.left hs'.left) hbody, hafter⟩
  | .function hn hps hb => fun hs hs' => by
    have hbody := hb.settle true (Scopes.parameters _ _).2 hs.right.right
    rw [parameters_of_rel hr hps, declare_of_rel hr hn, define_of_rel hr hn] at hbody
    refine ⟨.function hn hps (hbody hs'.right.right).1, ?_⟩
    simp only [Stmt.findings, declare_of_rel hr hn, define_of_rel hr hn]
  | .return hk ho => fun hs hs' => ⟨.return hk (ho.settle scopes hs.right hs'.right), rfl⟩
termination_by structural h

theorem Stmt.LikeAll.settle {ss ss' : List Stmt} (h : Stmt.LikeAll r q ss ss') (inFunction : Bool)
    (scopes : Scopes) :
    Recorded table bound (Stmt.findingsAll inFunction scopes ss).1 →
      Recorded table' bound' (Stmt.findingsAll inFunction scopes ss').1 →
      Stmt.LikeAll r (SameDistance table table' bound bound') ss ss' ∧
        (Stmt.findingsAll inFunction scopes ss).2 = (Stmt.findingsAll inFunction scopes ss').2 :=
  match h with
  | .nil => fun _ _ => ⟨.nil, rfl⟩
  | .cons hh hrest => fun hs hs' => by
    obtain ⟨hhere, hbetween⟩ := hh.settle inFunction scopes hs.left hs'.left
    have hthere := hrest.settle inFunction _ hs.right
    rw [hbetween] at hthere
    obtain ⟨hthere, hafter⟩ := hthere hs'.right
    refine ⟨.cons hhere hthere, ?_⟩
    simp only [Stmt.findingsAll, hbetween, hafter]
termination_by structural h

theorem Stmt.LikeOption.settle {o o' : Option Stmt} (h : Stmt.LikeOption r q o o')
    (inFunction : Bool) (scopes : Scopes) :
    Recorded table bound (Stmt.findingsOption inFunction scopes o).1 →
      Recorded table' bound' (Stmt.findingsOption inFunction scopes o').1 →
      Stmt.LikeOption r (SameDistance table table' bound bound') o o' ∧
        (Stmt.findingsOption inFunction scopes o).2 =
          (Stmt.findingsOption inFunction scopes o').2 :=
  match h with
  | .none => fun _ _ => ⟨.none, rfl⟩
  | .some hh => fun hs hs' => by
    obtain ⟨hhere, hafter⟩ := hh.settle inFunction scopes hs hs'
    exact ⟨.some hhere, hafter⟩
termination_by structural h

end

end

end LoxLang
