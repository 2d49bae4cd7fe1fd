import LoxLang.Proofs.Lexical.Reference
import LoxLang.Proofs.Machine.Steps

/-!
The surroundings of a block that declares nothing.

Entering a block gives surroundings with the same cells for all names.  At top level they differ from
those outside all the same, since what is declared in them goes into cells and no longer into the
table.  But a statement that is executed does not declare anything in its own surroundings; only
statements that follow one another do, and these stand in a block.  So what is executed in entered
surroundings goes as outside, and the functions that it creates differ at most in that their
surroundings have been entered (`entering`).
-/

namespace LoxLang

/-! ## What functions keep -/

section

variable {ε ε' : Type}

/-- The function with something else kept. -/
def Callable.mapKept (g : ε → ε') : Callable ε → Callable ε'
  | .closure name params body kept => .closure name params body (g kept)
  | .native name arity => .native name arity

/-- The value; if it is a function, with something else kept. -/
def Value.mapKept (g : ε → ε') : Value ε → Value ε'
  | .nil => .nil
  | .bool b => .bool b
  | .number x => .number x
  | .string s => .string s
  | .callable identity function => .callable identity (function.mapKept g)

variable {g : ε → ε'}

theorem Callable.arity_mapKept (function : Callable ε) :
    (function.mapKept g).arity = function.arity := by
  cases function <;> rfl

theorem Value.similar_mapKept (v : Value ε) : v.Similar (v.mapKept g) := by
  cases v with
  | nil => exact .nil
  | bool b => exact .bool b
  | number x => exact .number x
  | string s => exact .string s
  | callable identity function => exact .callable identity function _

theorem Value.isTruthy_mapKept (v : Value ε) : (v.mapKept g).isTruthy = v.isTruthy :=
  v.similar_mapKept.isTruthy_eq.symm

theorem Value.display_mapKept (v : Value ε) : (v.mapKept g).display = v.display := by
  cases v with
  | callable identity function =>
    cases function with
    | native name arity => rfl
    | closure name params body kept => cases name <;> rfl
  | _ => rfl

theorem Value.mapKept_ofConstant (c : Constant) :
    (Value.ofConstant c).mapKept g = .ofConstant c := by
  cases c <;> rfl

theorem Frame.lookup_map_mapKept (bindings : List (String × Value ε)) (name : String) :
    (bindings.map fun b => (b.1, b.2.mapKept g)).lookup name =
      (bindings.lookup name).map (·.mapKept g) := by
  induction bindings with
  | nil => rfl
  | cons b rest ih =>
    obtain ⟨key, value⟩ := b
    rw [List.map_cons, List.lookup_cons, List.lookup_cons]
    cases name == key with
    | true => rfl
    | false => exact ih

theorem Frame.map_mapKept_put (name : String) (value : Value ε)
    (bindings : List (String × Value ε)) :
    (Frame.put name value bindings).map (fun b => (b.1, b.2.mapKept g)) =
      Frame.put name (value.mapKept g) (bindings.map fun b => (b.1, b.2.mapKept g)) := by
  induction bindings with
  | nil => rfl
  | cons b rest ih =>
    obtain ⟨key, old⟩ := b
    rw [List.map_cons, Frame.put, Frame.put]
    dsimp only
    cases name == key with
    | true => rfl
    | false => exact congrArg _ ih

end

namespace Lexical

/-! ## Entered surroundings -/

namespace Surroundings

theorem cell?_enter (env : Surroundings) (name : String) : env.enter.cell? name = env.cell? name := by
  cases env <;> rfl

@[simp] theorem enter_enter (env : Surroundings) : env.enter.enter = env.enter := by
  cases env <;> rfl

theorem enter_eq_within (env : Surroundings) : ∃ names, env.enter = .within names := by
  cases env <;> exact ⟨_, rfl⟩

end Surroundings

/-- The value, with the surroundings of a function entered. -/
abbrev entered (v : Value Surroundings) : Value Surroundings := v.mapKept Surroundings.enter

def enteredCompletion : Completion Surroundings → Completion Surroundings
  | .normal => .normal
  | .returned v => .returned (entered v)

/-- The machine, with the surroundings of all functions entered. -/
def Machine.entered (r : Machine) : Machine :=
  { r with
    cells := r.cells.map (·.map Lexical.entered)
    globals := r.globals.map fun b => (b.1, Lexical.entered b.2) }

variable {α β γ δ : Type} {env : Surroundings} {reading : Nat → Except String Float} {n : Nat}

theorem Machine.value?_entered (r : Machine) (env : Surroundings) (name : String) :
    r.entered.value? env.enter name = (r.value? env name).map Lexical.entered := by
  rw [Machine.value?, Machine.value?, env.cell?_enter]
  cases env.cell? name with
  | some cell =>
    show ((r.cells.map _)[cell]?).bind id = ((r.cells[cell]?).bind id).map _
    rw [Array.getElem?_map]
    cases r.cells[cell]? <;> rfl
  | none => exact Frame.lookup_map_mapKept r.globals name

theorem Machine.entered_setCell (r : Machine) (cell : CellId) (v : Value Surroundings) :
    (r.setCell cell v).entered = r.entered.setCell cell (Lexical.entered v) := by
  have hcells : (r.cells.modify cell fun _ => some v).map (·.map Lexical.entered) =
      (r.cells.map (·.map Lexical.entered)).modify cell fun _ => some (Lexical.entered v) := by
    refine Array.ext_getElem? fun i => ?_
    rw [Array.getElem?_map, Array.getElem?_modify, Array.getElem?_modify, Array.getElem?_map]
    split <;> cases r.cells[i]? <;> rfl
  exact congrArg (fun cells => ({ r.entered with cells } : Machine)) hcells

theorem Machine.entered_setGlobal (r : Machine) (name : String) (v : Value Surroundings) :
    (r.setGlobal name v).entered = r.entered.setGlobal name (Lexical.entered v) :=
  congrArg (fun globals => ({ r.entered with globals } : Machine))
    (Frame.map_mapKept_put name v r.globals)

/-! ## Computations -/

/-- From the entered machine `y` goes as `x` does, to the entered machine. -/
def Enters (x : Run α) (y : Run β) (same : α → β → Prop) : Prop :=
  ∀ r, (x r).Agrees (y r.entered) (fun a s b t => same a b ∧ t = s.entered) fun s t => t = s.entered

/-- Two values of which the second one is the first one entered. -/
abbrev EnteredValue (v v' : Value Surroundings) : Prop := v' = entered v

abbrev EnteredCompletion (c c' : Completion Surroundings) : Prop := c' = enteredCompletion c

section

variable {same : α → β → Prop} {same' : γ → δ → Prop}

theorem Enters.bind {x : Run α} {y : Run β} {k : α → Run γ} {l : β → Run δ}
    (h : Enters x y same) (hk : ∀ a b, same a b → Enters (k a) (l b) same') :
    Enters (x >>= k) (y >>= l) same' := by
  intro r
  refine Action.agrees_bind (h r) ?_
  rintro a s b t ⟨hs, rfl⟩
  exact hk a b hs s

theorem Enters.pure {a : α} {b : β} (h : same a b) : Enters (Pure.pure a) (Pure.pure b) same :=
  fun _ => ⟨h, rfl⟩

theorem Enters.fault (cause : Cause) (token : Token) :
    Enters (Run.fault cause token) (Run.fault cause token) same :=
  fun _ => ⟨rfl, rfl⟩

theorem enters_outOfSteps : Enters Action.outOfSteps Action.outOfSteps same := fun _ => trivial

theorem Enters.inCall {x : Run α} {y : Run β} (paren : Token) (h : Enters x y same) :
    Enters (Lexical.inCall paren x) (Lexical.inCall paren y) same := by
  intro r
  have hinside := h { r with depth := r.depth + 1 }
  rw [inCall_eq, inCall_eq]
  by_cases hdeep : maxCallDepth ≤ r.depth
  · rw [if_pos hdeep, if_pos (show maxCallDepth ≤ r.entered.depth from hdeep)]
    exact ⟨rfl, rfl⟩
  · rw [if_neg hdeep, if_neg (show ¬ maxCallDepth ≤ r.entered.depth from hdeep),
      Outcome.agrees_mapState]
    refine hinside.mono ?_ ?_
    · rintro a s b t ⟨hs, rfl⟩
      exact ⟨hs, rfl⟩
    · rintro s t rfl
      rfl

end

/-! ## Single steps -/

theorem enters_read (env : Surroundings) (name : Token) :
    Enters (read env name) (read env.enter name) EnteredValue := by
  intro r
  rw [read, read, r.value?_entered]
  cases r.value? env name.lexeme with
  | none => exact ⟨rfl, rfl⟩
  | some v => exact ⟨rfl, rfl⟩

theorem enters_assign (env : Surroundings) (name : Token) (v : Value Surroundings) :
    Enters (assign env name v) (assign env.enter name (entered v)) fun _ _ => True := by
  intro r
  rw [assign, assign, r.value?_entered, env.cell?_enter, Option.isSome_map]
  cases (r.value? env name.lexeme).isSome with
  | false => exact ⟨rfl, rfl⟩
  | true =>
    cases env.cell? name.lexeme with
    | some cell => exact ⟨trivial, (r.entered_setCell cell v).symm⟩
    | none => exact ⟨trivial, (r.entered_setGlobal name.lexeme v).symm⟩

theorem enters_define (env : Surroundings) (name : String) (v : Value Surroundings) :
    Enters (define env name v) (define env.enter name (entered v)) fun _ _ => True := by
  intro r
  rw [define, define, env.cell?_enter]
  cases env.cell? name with
  | some cell => exact ⟨trivial, (r.entered_setCell cell v).symm⟩
  | none => exact ⟨trivial, (r.entered_setGlobal name v).symm⟩

/-- In a block, a name gets the same cell in both machines. -/
theorem enters_declare (names : List (String × CellId)) (name : String) :
    Enters (declare (.within names) name) (declare (.within names) name) fun inside inside' =>
      inside' = inside ∧ ∃ names', inside = .within names' := by
  intro r
  have hsize : r.entered.cells.size = r.cells.size := Array.size_map
  have hpush : (r.cells.push none).map (·.map entered) =
      (r.cells.map (·.map entered)).push none := Array.map_push
  rw [declare, declare]
  refine ⟨⟨?_, _, rfl⟩, ?_⟩
  · rw [hsize]
  · exact congrArg (fun cells => ({ r.entered with cells } : Machine)) hpush.symm

theorem enters_declareIn (names : List (String × CellId)) (s : Stmt) :
    Enters (declareIn (.within names) s) (declareIn (.within names) s) fun inside inside' =>
      inside' = inside ∧ ∃ names', inside = .within names' := by
  cases s with
  | var name initializer => exact enters_declare names name.lexeme
  | function name params body => exact enters_declare names name.lexeme
  | _ => exact .pure ⟨rfl, names, rfl⟩

theorem enters_bindAll (names : List (String × CellId))
    (bindings : List (String × Value Surroundings)) :
    Enters (bindAll (.within names) bindings)
      (bindAll (.within names) (bindings.map fun b => (b.1, entered b.2))) fun inside inside' =>
        inside' = inside ∧ ∃ names', inside = .within names' := by
  induction bindings generalizing names with
  | nil => exact .pure ⟨rfl, names, rfl⟩
  | cons b rest ih =>
    obtain ⟨name, value⟩ := b
    refine (enters_declare names name).bind ?_
    rintro inside inside' ⟨rfl, names', rfl⟩
    exact (enters_define (.within names') name value).bind fun _ _ _ => ih names'

theorem enters_print (line : String) : Enters (print line) (print line) fun _ _ => True :=
  fun _ => ⟨trivial, rfl⟩

theorem enters_closure (env : Surroundings) (name : Option String) (params : List Token)
    (body : List Stmt) :
    Enters (closure env name params body) (closure env.enter name params body) EnteredValue :=
  fun _ => ⟨rfl, rfl⟩

theorem enters_readClock (reading : Nat → Except String Float) (paren : Token) :
    Enters (readClock reading paren) (readClock reading paren) EnteredValue := by
  intro r
  simp only [readClock, show r.entered.nativeCalls = r.nativeCalls from rfl]
  cases reading r.nativeCalls with
  | ok x => exact ⟨rfl, rfl⟩
  | error message => exact ⟨rfl, rfl⟩

theorem enters_conclude (operator : Token) (verdict : Run.Verdict) :
    Enters (Run.conclude operator verdict) (Run.conclude operator verdict) EnteredValue := by
  cases verdict with
  | value c => exact .pure (Value.mapKept_ofConstant c).symm
  | fault cause => exact .fault cause operator
  | malformed => exact fun _ => ⟨rfl, rfl⟩

theorem enters_applyUnary (operator : Token) (v : Value Surroundings) :
    Enters (Run.applyUnary operator v) (Run.applyUnary operator (entered v)) EnteredValue := by
  obtain ⟨verdict, -, hx, hy⟩ := Run.applyUnary_verdict (rfl : operator.kind = _)
    (v.similar_mapKept (g := Surroundings.enter))
  rw [hx, hy]
  exact enters_conclude operator verdict

theorem enters_applyBinary (operator : Token) (a b : Value Surroundings) :
    Enters (Run.applyBinary operator a b) (Run.applyBinary operator (entered a) (entered b))
      EnteredValue := by
  obtain ⟨verdict, -, hx, hy⟩ := Run.applyBinary_verdict (rfl : operator.kind = _)
    (a.similar_mapKept (g := Surroundings.enter)) (b.similar_mapKept (g := Surroundings.enter))
  rw [hx, hy]
  exact enters_conclude operator verdict

/-! ## Evaluation -/

abbrev EnteredValues (vs vs' : List (Value Surroundings)) : Prop := vs' = vs.map entered

/-- What `n` nested steps do in entered surroundings.  Statements one after the other are taken in the
surroundings of a block, which entering leaves as they are. -/
structure Entering (reading : Nat → Except String Float) (n : Nat) : Prop where
  evaluate : ∀ env e,
    Enters (evaluate reading n env e) (evaluate reading n env.enter e) EnteredValue
  evaluateAll : ∀ env es,
    Enters (evaluateAll reading n env es) (evaluateAll reading n env.enter es) EnteredValues
  call : ∀ function paren values,
    Enters (call reading n function paren values)
      (call reading n (function.mapKept Surroundings.enter) paren (values.map entered)) EnteredValue
  execute : ∀ env s,
    Enters (execute reading n env s) (execute reading n env.enter s) EnteredCompletion
  executeAll : ∀ names ss,
    Enters (executeAll reading n (.within names) ss) (executeAll reading n (.within names) ss)
      EnteredCompletion
  loop : ∀ env condition body,
    Enters (loop reading n env condition body) (loop reading n env.enter condition body)
      EnteredCompletion

theorem Entering.evaluate_succ (h : Entering reading n) (e : Expr) :
    Enters (Lexical.evaluate reading (n + 1) env e) (Lexical.evaluate reading (n + 1) env.enter e)
      EnteredValue := by
  cases e with
  | constant value => exact .pure (Value.mapKept_ofConstant value).symm
  | grouping inner => exact h.evaluate env inner
  | unary operator operand =>
    refine (h.evaluate env operand).bind ?_
    rintro v _ rfl
    exact enters_applyUnary operator v
  | binary left operator right =>
    refine (h.evaluate env left).bind ?_
    rintro a _ rfl
    refine (h.evaluate env right).bind ?_
    rintro b _ rfl
    exact enters_applyBinary operator a b
  | logical left operator right =>
    refine (h.evaluate env left).bind ?_
    rintro a _ rfl
    rw [← Run.decides_similar rfl a.similar_mapKept]
    cases Run.decides operator a with
    | true => exact .pure rfl
    | false => exact h.evaluate env right
  | read id name => exact enters_read env name
  | assign id name value =>
    refine (h.evaluate env value).bind ?_
    rintro v _ rfl
    exact (enters_assign env name v).bind fun _ _ _ => .pure rfl
  | call callee paren arguments =>
    refine (h.evaluate env callee).bind ?_
    rintro f _ rfl
    refine (h.evaluateAll env arguments).bind ?_
    rintro values _ rfl
    cases f with
    | callable identity function =>
      show Enters
        (if values.length = function.arity then Lexical.call reading n function paren values
          else Run.fault (.wrongArgumentCount function.arity values.length) paren)
        (if (values.map entered).length = (function.mapKept Surroundings.enter).arity then
          Lexical.call reading n (function.mapKept Surroundings.enter) paren (values.map entered)
        else Run.fault (.wrongArgumentCount (function.mapKept Surroundings.enter).arity
          (values.map entered).length) paren) _
      rw [List.length_map, function.arity_mapKept]
      by_cases hcount : values.length = function.arity
      · rw [if_pos hcount, if_pos hcount]
        exact h.call function paren values
      · rw [if_neg hcount, if_neg hcount]
        exact .fault _ _
    | _ => exact .fault _ _
  | function keyword params body => exact enters_closure env none params body

theorem Entering.evaluateAll_succ (h : Entering reading n) (es : List Expr) :
    Enters (Lexical.evaluateAll reading (n + 1) env es)
      (Lexical.evaluateAll reading (n + 1) env.enter es) EnteredValues := by
  cases es with
  | nil => exact .pure rfl
  | cons e es =>
    refine (h.evaluate env e).bind ?_
    rintro v _ rfl
    refine (h.evaluateAll env es).bind ?_
    rintro vs _ rfl
    exact .pure rfl

theorem Entering.call_succ (h : Entering reading n) (function : Callable Surroundings)
    (paren : Token) (values : List (Value Surroundings)) :
    Enters (Lexical.call reading (n + 1) function paren values)
      (Lexical.call reading (n + 1) (function.mapKept Surroundings.enter) paren
        (values.map entered)) EnteredValue := by
  cases function with
  | native name arity => exact enters_readClock reading paren
  | closure name params body kept =>
    obtain ⟨names, hnames⟩ := kept.enter_eq_within
    have hzip : ∀ keys : List String, keys.zip (values.map entered) =
        (keys.zip values).map fun b => (b.1, entered b.2) := fun keys => by
      rw [List.zip_map_right]
      rfl
    show Enters (bindAll kept.enter ((params.map (·.lexeme)).zip values) >>= _)
      (bindAll kept.enter.enter ((params.map (·.lexeme)).zip (values.map entered)) >>= _) _
    -- A call enters what the function keeps, so it does not matter whether that has been done before.
    rw [hzip, kept.enter_enter, hnames]
    refine (enters_bindAll names _).bind ?_
    rintro inside _ ⟨rfl, names', rfl⟩
    refine ((h.executeAll names' body).inCall paren).bind ?_
    rintro c _ rfl
    cases c with
    | normal => exact .pure rfl
    | returned v => exact .pure rfl

theorem Entering.execute_succ (h : Entering reading n) (s : Stmt) :
    Enters (Lexical.execute reading (n + 1) env s) (Lexical.execute reading (n + 1) env.enter s)
      EnteredCompletion := by
  cases s with
  | expression value => exact (h.evaluate env value).bind fun _ _ _ => .pure rfl
  | print keyword value =>
    refine (h.evaluate env value).bind ?_
    rintro v _ rfl
    rw [v.display_mapKept]
    exact (enters_print _).bind fun _ _ _ => .pure rfl
  | var name initializer =>
    cases initializer with
    | none => exact (enters_define env name.lexeme .nil).bind fun _ _ _ => .pure rfl
    | some value =>
      refine (h.evaluate env value).bind ?_
      rintro v _ rfl
      exact (enters_define env name.lexeme v).bind fun _ _ _ => .pure rfl
  | block body =>
    show Enters (Lexical.executeAll reading n env.enter body)
      (Lexical.executeAll reading n env.enter.enter body) _
    rw [env.enter_enter]
    cases env with
    | top => exact h.executeAll [] body
    | within names => exact h.executeAll names body
  | ifElse condition thenBranch elseBranch =>
    refine (h.evaluate env condition).bind ?_
    rintro v _ rfl
    rw [v.isTruthy_mapKept]
    cases v.isTruthy with
    | true => exact h.execute env thenBranch
    | false =>
      cases elseBranch with
      | none => exact .pure rfl
      | some branch => exact h.execute env branch
  | «while» condition body => exact h.loop env condition body
  | function name params body =>
    refine (enters_closure env (some name.lexeme) params body).bind ?_
    rintro f _ rfl
    exact (enters_define env name.lexeme f).bind fun _ _ _ => .pure rfl
  | «return» keyword value =>
    cases value with
    | none => exact .pure rfl
    | some value =>
      refine (h.evaluate env value).bind ?_
      rintro v _ rfl
      exact .pure rfl

theorem Entering.executeAll_succ (h : Entering reading n) (names : List (String × CellId))
    (ss : List Stmt) :
    Enters (Lexical.executeAll reading (n + 1) (.within names) ss)
      (Lexical.executeAll reading (n + 1) (.within names) ss) EnteredCompletion := by
  cases ss with
  | nil => exact .pure rfl
  | cons s ss =>
    refine (enters_declareIn names s).bind ?_
    rintro inside _ ⟨rfl, names', rfl⟩
    refine (h.execute (.within names') s).bind ?_
    rintro c _ rfl
    cases c with
    | normal => exact h.executeAll names' ss
    | returned v => exact .pure rfl

theorem Entering.loop_succ (h : Entering reading n) (condition : Expr) (body : Stmt) :
    Enters (Lexical.loop reading (n + 1) env condition body)
      (Lexical.loop reading (n + 1) env.enter condition body) EnteredCompletion := by
  refine (h.evaluate env condition).bind ?_
  rintro v _ rfl
  rw [v.isTruthy_mapKept]
  cases v.isTruthy with
  | false => exact .pure rfl
  | true =>
    refine (h.execute env body).bind ?_
    rintro c _ rfl
    cases c with
    | normal => exact h.loop env condition body
    | returned v => exact .pure rfl

theorem entering (reading : Nat → Except String Float) (n : Nat) : Entering reading n := by
  induction n with
  | zero =>
    exact ⟨fun _ _ => enters_outOfSteps, fun _ _ => enters_outOfSteps,
      fun _ _ _ => enters_outOfSteps, fun _ _ => enters_outOfSteps, fun _ _ => enters_outOfSteps,
      fun _ _ _ => enters_outOfSteps⟩
  | succ n ih =>
    exact ⟨fun _ => ih.evaluate_succ, fun _ => ih.evaluateAll_succ, ih.call_succ,
      fun _ => ih.execute_succ, ih.executeAll_succ, fun _ => ih.loop_succ⟩

/-! ## Ends that differ by entering only -/

/-- Both end alike, but for functions whose surroundings have been entered after one of them only. -/
def EndAlike (o o' : Outcome Stop Machine (Completion Surroundings)) : Prop :=
  o.Agrees o'
    (fun c s c' t => enteredCompletion c = enteredCompletion c' ∧ s.entered = t.entered)
    fun s t => s.entered = t.entered

/-- What goes alike in entered surroundings ends alike outside. -/
theorem Enters.endAlike {x x' y y' : Run (Completion Surroundings)}
    (h : Enters x y EnteredCompletion) (h' : Enters x' y' EnteredCompletion) {r : Machine}
    (heq : y r.entered = y' r.entered) : EndAlike (x r) (x' r) := by
  have hx := h r
  rw [heq] at hx
  refine hx.trans (h' r).symm ?_ ?_
  · rintro c s d t c' s' ⟨hc, hs⟩ ⟨hc', hs'⟩
    exact ⟨hc.symm.trans hc', hs.symm.trans hs'⟩
  · rintro s t s' hs hs'
    exact hs.symm.trans hs'

end Lexical

end LoxLang
