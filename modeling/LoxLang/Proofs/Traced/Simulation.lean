import LoxLang.Proofs.Traced.Steps

/-!
Traced evaluation and plain evaluation of trees that are alike.

Bound for bound they follow each other, if node numbers that correspond have the same distance and
tokens that correspond have the same kind and lexeme.  The induction is on the bound on the steps.
-/

namespace LoxLang.Traced

section

variable (r : Nat → Token → Token → Prop) (q : NodeId → NodeId → Prop) (printed : Array String)
  (reading : Nat → Except String Float) (table table' : Locals)

/-- What `n` nested steps do, traced and plain. -/
structure Followed (n : Nat) : Prop where
  evaluate : ∀ {p e e'}, Expr.Like (r p.program) q e e' →
    Follows r q printed (evaluate reading table n p e)
      (Run.evaluate ⟨Host.timed reading, table'⟩ n e') (SameValue r q)
  evaluateAll : ∀ {p i es es'}, Expr.LikeAll (r p.program) q es es' →
    Follows r q printed (evaluateAll reading table n p i es)
      (Run.evaluateAll ⟨Host.timed reading, table'⟩ n es') (SameValues r q)
  call : ∀ {p function function' paren paren' values values'},
    SameCallable r q function function' → r p.program paren paren' →
    SameValues r q values values' →
    Follows r q printed (call reading table n p function paren values)
      (Run.call ⟨Host.timed reading, table'⟩ n function' paren' values') (SameValue r q)
  execute : ∀ {p s s'}, Stmt.Like (r p.program) q s s' →
    Follows r q printed (execute reading table n p s)
      (Run.execute ⟨Host.timed reading, table'⟩ n s') (SameCompletion r q)
  executeAll : ∀ {p i ss ss'}, Stmt.LikeAll (r p.program) q ss ss' →
    Follows r q printed (executeAll reading table n p i ss)
      (Run.executeAll ⟨Host.timed reading, table'⟩ n ss') (SameCompletion r q)
  loop : ∀ {p condition condition' body body'}, Expr.Like (r p.program) q condition condition' →
    Stmt.Like (r p.program) q body body' →
    Follows r q printed (loop reading table n p condition body)
      (Run.loop ⟨Host.timed reading, table'⟩ n condition' body') (SameCompletion r q)

end

variable {r : Nat → Token → Token → Prop} {q : NodeId → NodeId → Prop} {printed : Array String}
  {reading : Nat → Except String Float} {table table' : Locals} {n : Nat} {p : Place}
  (hr : ∀ k t t', r k t t' → t.kind = t'.kind ∧ t.lexeme = t'.lexeme)
  (hq : ∀ i j, q i j → table[i]? = table'[j]?)

include hr in
theorem lexemes_eq {k : Nat} {params params' : List Token} (h : List.Forall₂ (r k) params params') :
    params.map (·.lexeme) = params'.map (·.lexeme) := by
  induction h with
  | nil => rfl
  | cons hn _ ih => rw [List.map_cons, List.map_cons, (hr _ _ _ hn).2, ih]

/-! ## Expressions -/

theorem Followed.callValue (h : Followed r q printed reading table table' n) {v : Value Kept}
    {v' : Value} {paren paren' : Token} {values : List (Value Kept)} {values' : List Value}
    (ht : r p.program paren paren') (hv : SameValue r q v v')
    (hvs : SameValues r q values values') :
    Follows r q printed
      (match v with
        | .callable _ function =>
          if values.length = function.arity then Traced.call reading table n p function paren values
          else step p (Run.fault (.wrongArgumentCount function.arity values.length) paren)
        | _ => step p (Run.fault .notCallable paren))
      (match v' with
        | .callable _ function =>
          if values'.length = function.arity then
            Run.call ⟨Host.timed reading, table'⟩ n function paren' values'
          else Run.fault (.wrongArgumentCount function.arity values'.length) paren'
        | _ => Run.fault .notCallable paren')
      (SameValue r q) := by
  cases hv with
  | nil => exact follows_fault _ ht
  | bool b => exact follows_fault _ ht
  | number x => exact follows_fault _ ht
  | string s => exact follows_fault _ ht
  | @callable identity function function' hc =>
    simp only [hvs.length_eq, hc.arity_eq]
    by_cases hcount : values'.length = function'.arity
    · rw [if_pos hcount, if_pos hcount]
      exact h.call hc ht hvs
    · rw [if_neg hcount, if_neg hcount]
      exact follows_fault _ ht

include hr hq in
theorem Followed.evaluate_succ (h : Followed r q printed reading table table' n) {e e' : Expr}
    (he : Expr.Like (r p.program) q e e') :
    Follows r q printed (Traced.evaluate reading table (n + 1) p e)
      (Run.evaluate ⟨Host.timed reading, table'⟩ (n + 1) e') (SameValue r q) := by
  cases he with
  | constant => exact .visit (.pure (.ofConstant _))
  | grouping he => exact .visit (h.evaluate he)
  | unary ho he =>
    refine .visit (.bind (h.evaluate he) ?_)
    intro v v' hv
    exact follows_applyUnary hr ho hv
  | binary hl ho hright =>
    refine .visit (.bind (h.evaluate hl) ?_)
    intro a a' ha
    refine .bind (h.evaluate hright) ?_
    intro b b' hb
    exact follows_applyBinary hr ho ha hb
  | logical hl ho hright =>
    refine .visit (.bind (h.evaluate hl) ?_)
    intro a a' ha
    rw [Run.decides_similar (hr _ _ _ ho).1 ha.similar]
    split
    · exact .pure ha
    · exact h.evaluate hright
  | read hi hn => exact .visit (follows_read hr (hq _ _ hi) hn)
  | assign hi hn hv =>
    refine .visit (.bind (h.evaluate hv) ?_)
    intro v v' hv
    refine .visit (.bind (follows_assign hr (hq _ _ hi) hn hv) ?_)
    intro _ _ _
    exact .pure hv
  | call hc hp has =>
    refine .visit (.bind (h.evaluate hc) ?_)
    intro v v' hv
    refine .bind (h.evaluateAll has) ?_
    intro values values' hvs
    exact h.callValue hp hv hvs
  | function _ hps hb => exact .visit (follows_closure hps hb)

theorem Followed.evaluateAll_succ (h : Followed r q printed reading table table' n) {i : Nat}
    {es es' : List Expr} (hes : Expr.LikeAll (r p.program) q es es') :
    Follows r q printed (Traced.evaluateAll reading table (n + 1) p i es)
      (Run.evaluateAll ⟨Host.timed reading, table'⟩ (n + 1) es') (SameValues r q) := by
  cases hes with
  | nil => exact .pure .nil
  | cons he hes =>
    refine .bind (h.evaluate he) ?_
    intro v v' hv
    refine .bind (h.evaluateAll hes) ?_
    intro vs vs' hvs
    exact .pure (.cons hv hvs)

/-! ## Calls -/

include hr in
theorem Followed.call_succ (h : Followed r q printed reading table table' n)
    {function : Callable Kept} {function' : Callable} {paren paren' : Token}
    {values : List (Value Kept)} {values' : List Value} (hf : SameCallable r q function function')
    (ht : r p.program paren paren') (hvs : SameValues r q values values') :
    Follows r q printed (Traced.call reading table (n + 1) p function paren values)
      (Run.call ⟨Host.timed reading, table'⟩ (n + 1) function' paren' values')
      (SameValue r q) := by
  cases hf with
  | @native name arity => exact follows_readClock reading table' name values' ht
  | @closure name params params' body body' frame place hps hb =>
    have hframe : Follows r q printed
        (newFrame place frame ((params.map (·.lexeme)).zip values))
        (Run.newFrame frame ((params'.map (·.lexeme)).zip values')) Eq := by
      rw [lexemes_eq hr hps]
      exact follows_newFrame place frame _ hvs
    refine .bind hframe ?_
    rintro f _ rfl
    refine .bind (.inCall ht (.inFrame f (h.executeAll hb))) ?_
    intro c c' hc
    cases hc with
    | normal => exact .pure .nil
    | returned hv => exact .pure hv

/-! ## Statements -/

include hr in
theorem Followed.execute_succ (h : Followed r q printed reading table table' n) {s s' : Stmt}
    (hs : Stmt.Like (r p.program) q s s') :
    Follows r q printed (Traced.execute reading table (n + 1) p s)
      (Run.execute ⟨Host.timed reading, table'⟩ (n + 1) s') (SameCompletion r q) := by
  cases hs with
  | expression he =>
    refine .visit (.bind (h.evaluate he) ?_)
    intro v v' hv
    exact .pure .normal
  | print _ he =>
    refine .visit (.bind (h.evaluate he) ?_)
    intro v v' hv
    rw [hv.display_eq]
    refine .bind (follows_print _) ?_
    intro _ _ _
    exact .pure .normal
  | @var name name' initializer initializer' hn ho =>
    have hdefine : ∀ {v v'}, SameValue r q v v' →
        Follows r q printed
          (step p (Run.define name.lexeme v) >>= fun _ => Pure.pure .normal)
          (Run.define name'.lexeme v' >>= fun _ => Pure.pure .normal) (SameCompletion r q) := by
      intro v v' hv
      rw [(hr _ _ _ hn).2]
      refine .bind (follows_define _ hv) ?_
      intro _ _ _
      exact .pure .normal
    cases ho with
    | none => exact .visit (hdefine .nil)
    | some he =>
      refine .visit (.bind (h.evaluate he) ?_)
      intro v v' hv
      exact hdefine hv
  | block hb =>
    refine .visit (.bind (follows_newInnerFrame p) ?_)
    rintro f _ rfl
    exact .inFrame f (h.executeAll hb)
  | ifElse hc ht ho =>
    refine .visit (.bind (h.evaluate hc) ?_)
    intro v v' hv
    rw [hv.similar.isTruthy_eq]
    split
    · exact h.execute ht
    · cases ho with
      | none => exact .pure .normal
      | some he => exact h.execute he
  | «while» hc hb => exact .visit (h.loop hc hb)
  | @function name name' params params' body body' hn hps hb =>
    have hclosure : Follows r q printed (step p (closure p (some name.lexeme) params body))
        (Run.closure (some name'.lexeme) params' body') (SameValue r q) := by
      rw [(hr _ _ _ hn).2]
      exact follows_closure hps hb
    refine .visit (.bind hclosure ?_)
    intro v v' hv
    rw [(hr _ _ _ hn).2]
    refine .bind (follows_define name'.lexeme hv) ?_
    intro _ _ _
    exact .pure .normal
  | «return» _ ho =>
    cases ho with
    | none => exact .visit (.pure (.returned .nil))
    | some he =>
      refine .visit (.bind (h.evaluate he) ?_)
      intro v v' hv
      exact .pure (.returned hv)

theorem Followed.executeAll_succ (h : Followed r q printed reading table table' n) {i : Nat}
    {ss ss' : List Stmt} (hss : Stmt.LikeAll (r p.program) q ss ss') :
    Follows r q printed (Traced.executeAll reading table (n + 1) p i ss)
      (Run.executeAll ⟨Host.timed reading, table'⟩ (n + 1) ss') (SameCompletion r q) := by
  cases hss with
  | nil => exact .pure .normal
  | cons hs hss =>
    refine .bind (h.execute hs) ?_
    intro c c' hc
    cases hc with
    | normal => exact h.executeAll hss
    | returned hv => exact .pure (.returned hv)

theorem Followed.loop_succ (h : Followed r q printed reading table table' n)
    {condition condition' : Expr} {body body' : Stmt}
    (hc : Expr.Like (r p.program) q condition condition')
    (hb : Stmt.Like (r p.program) q body body') :
    Follows r q printed (Traced.loop reading table (n + 1) p condition body)
      (Run.loop ⟨Host.timed reading, table'⟩ (n + 1) condition' body') (SameCompletion r q) := by
  refine .bind (h.evaluate hc) ?_
  intro v v' hv
  rw [hv.similar.isTruthy_eq]
  split
  · refine .bind (h.execute hb) ?_
    intro c c' hcompletion
    cases hcompletion with
    | normal => exact h.loop hc hb
    | returned hv => exact .pure (.returned hv)
  · exact .pure .normal

/-! ## All together -/

include hr hq in
theorem followed (printed : Array String) (reading : Nat → Except String Float) (n : Nat) :
    Followed r q printed reading table table' n := by
  induction n with
  | zero =>
    exact ⟨fun _ _ _ _ => trivial, fun _ _ _ _ => trivial, fun _ _ _ _ _ _ => trivial,
      fun _ _ _ _ => trivial, fun _ _ _ _ => trivial, fun _ _ _ _ _ => trivial⟩
  | succ n ih =>
    exact ⟨ih.evaluate_succ hr hq, ih.evaluateAll_succ, ih.call_succ hr, ih.execute_succ hr,
      ih.executeAll_succ, ih.loop_succ⟩

include hr hq in
/-- The statements of a program, from number `i` on. -/
theorem follows_executeProgram (printed : Array String) (reading : Nat → Except String Float)
    (n : Nat) {p : Place} {ss ss' : List Stmt} (h : Stmt.LikeAll (r p.program) q ss ss') (i : Nat) :
    Follows r q printed (executeProgram reading table n p i ss)
      (Run.executeProgram ⟨Host.timed reading, table'⟩ n ss') fun _ _ => True := by
  induction ss generalizing ss' i with
  | nil =>
    cases h
    exact .pure trivial
  | cons s ss ih =>
    cases h with
    | cons hs hss =>
      refine .bind ((followed hr hq printed reading n).execute hs) ?_
      intro _ _ _
      exact ih hss (i + 1)

end LoxLang.Traced
