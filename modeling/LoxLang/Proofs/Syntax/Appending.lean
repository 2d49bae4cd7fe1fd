import LoxLang.Proofs.Syntax.Locality
import LoxLang.Proofs.Syntax.Recognition
import LoxLang.Proofs.Syntax.Renaming

/-!
Programs one behind the other.

Statements without fault are read as they stand, whatever comes behind them but an `else`
(`Read.declarations_behind`).  Where they end, reading is left with the tokens with which a reading of
the second program begins; all that it may see besides is what it has passed, and it does not look at
that.  So a program without faults and one behind it make up the statements of both, with the faults of
the second (`Program.ofTokens_append`).
-/

namespace LoxLang

open Grammar Reading Outcome

theorem firstKind_beforeEof (ts : List Token) : firstKind (beforeEof ts) = firstKind ts := by
  cases ts with
  | nil => rfl
  | cons t ts =>
    by_cases ht : t.kind = .eof
    · rw [beforeEof_cons_eof ht, firstKind_nil, firstKind_cons, ht]
    · rw [beforeEof_cons ht, firstKind_cons, firstKind_cons]

theorem beforeEof_beforeEof_append (ts us : List Token) :
    beforeEof (beforeEof ts ++ us) = beforeEof ts ++ beforeEof us :=
  beforeEof_append (fun _ => kind_ne_eof_of_mem) us

theorem closeTokens_append {us : List Token} (h : us ≠ []) (ts : List Token) :
    closeTokens (ts ++ us) = ts ++ closeTokens us := by
  obtain ⟨last, hlast⟩ : ∃ last, us.getLast? = some last := ⟨_, List.getLast?_eq_some_getLast h⟩
  rw [closeTokens, closeTokens, List.getLast?_append_of_ne_nil ts h, hlast]
  dsimp only
  split
  · rfl
  · exact List.append_assoc _ _ _

theorem Cursor.remaining_ofTokens (tokens : List Token) :
    (ofTokens tokens).remaining = closeTokens tokens := by
  obtain ⟨t, ht, -⟩ := eof_mem_closeTokens tokens
  obtain ⟨first, rest, htokens⟩ := List.exists_cons_of_ne_nil (List.ne_nil_of_mem ht)
  rw [ofTokens, htokens]
  rfl

namespace Read

variable {fits : Nat → Prop}

theorem declarations_nil {n : Nat} (hn : 0 < n) {r : Reading} (hr : r.cursor.ahead = []) :
    declarations n r = .ok [] r := by
  obtain ⟨n, rfl⟩ := Nat.exists_eq_add_one.2 hn
  rw [declarations, Action.bind_ok (rfl : atEnd r = _), if_pos (Cursor.atEnd_iff.2 hr)]
  rfl

/-- Behind the first declaration, which may take fewer steps, the others are read. -/
theorem declarations_of_declaration {n m : Nat} (h : n ≤ m) {r s : Reading} {o : Option Stmt}
    (hr : r.cursor.ahead ≠ []) (ho : declaration n r = .ok o s) :
    declarations (m + 1) r = (declarations m >>= fun rest => pure (o.toList ++ rest)) s := by
  have hmore := (composing h).declaration.eq_of_ne_exhausted (ho ▸ ok_ne_exhausted o s)
  rw [declarations, Action.bind_ok (rfl : atEnd r = _), if_neg (mt Cursor.atEnd_iff.1 hr),
    Action.bind_ok (hmore.trans ho)]

/-- Derived statements, in front of whatever does not begin with an `else`: they are read, and what
is left to do is to read the rest. -/
theorem declarations_behind {ss : List Stmt} {ts us : List Token} (h : Declarations fits ts ss)
    (hus : firstKind us ≠ .elseKw) {n : Nat} {r : Reading} (hr : r.cursor.Closed)
    (ha : r.cursor.ahead = ts ++ us) (hn : ¬TooFew n r 8) :
    ∃ m s ss', Reaches fits r s us ∧ r.cursor.Onward s.cursor ∧ unnumbered ss' = unnumbered ss ∧
      ¬TooFew m s 8 ∧ declarations n r = (declarations m >>= fun qs => pure (ss' ++ qs)) s := by
  induction ss generalizing ts n r with
  | nil =>
    cases h
    refine ⟨n, r, [], Reaches.refl hr ha, .refl _, rfl, hn, ?_⟩
    rw [Action.bind_apply]
    cases declarations n r <;> rfl
  | cons d ss ih =>
    cases h with
    | @cons ts _ vs _ hd hs =>
      have helse : firstKind (vs ++ us) ≠ .elseKw := by
        cases vs with
        | nil => exact hus
        | cons v vs => exact hs.firstKind_ne
      rw [List.append_assoc] at ha
      obtain ⟨n, rfl⟩ : ∃ k, n = k + 1 := by
        unfold TooFew at hn
        exact Nat.exists_eq_add_one.2 (by omega)
      have hfirst := declaration_succeeds (declaration_read hd) n hr ha helse
      have honward := (composing (Nat.le_refl n)).declaration.onward r
      cases hd' : declaration n r with
      | error e s =>
        rw [hd'] at hfirst
        exact hfirst.elim
      | exhausted =>
        rw [hd'] at hfirst
        have hshort : TooFew n r 7 := hfirst
        unfold TooFew at hn hshort
        omega
      | ok o s =>
        rw [hd'] at hfirst honward
        obtain ⟨d', rfl, hreach, hsame⟩ := hfirst
        have hfew : ¬TooFew n s 8 := fun hshort => by
          refine hn (TooFew.behind ha hreach.ahead ?_ (by decide) hshort)
          have := List.length_pos_iff.2 hd.ne_nil
          simp only [List.length_append]
          omega
        obtain ⟨m, t, ss', ht, ht', hss, hm, hrest⟩ := ih hs hreach.closed hreach.ahead hfew
        refine ⟨m, t, d' :: ss', hreach.trans ht, honward.trans ht', ?_, hm, ?_⟩
        · show d'.unnumbered :: unnumbered ss' = d.unnumbered :: unnumbered ss
          rw [hsame, hss]
        · have hne : r.cursor.ahead ≠ [] := by
            rw [ha]
            exact List.append_ne_nil_of_left_ne_nil hd.ne_nil _
          rw [declarations_of_declaration (Nat.le_refl n) hne hd', Action.bind_apply, hrest,
            Action.bind_apply, Action.bind_apply]
          cases declarations m t <;> rfl

/-- A reading that has the tokens of a program left reads the program. -/
theorem declarations_eq_ofTokens {tokens : List Token} {m : Nat} {s : Reading}
    (hs : s.cursor.remaining = closeTokens tokens) (hk : s.cursor.kind ≠ .eof)
    (hfaults : s.faults = []) (hm : ¬TooFew m s 8) :
    ∃ t, declarations m s = .ok (Program.ofTokens tokens s.nextId).statements t ∧
      t.faults.reverse = (Program.ofTokens tokens s.nextId).faults := by
  obtain ⟨last, hlast, heof⟩ := Cursor.eof_mem_closeTokens tokens
  obtain ⟨w, rest, hclose⟩ := List.append_of_mem hlast
  have hstart : (Reading.start tokens s.nextId).cursor.remaining = w ++ last :: rest :=
    (Cursor.remaining_ofTokens tokens).trans hclose
  have hp : Cursor.Parting last rest rest := by
    refine ⟨⟨last, List.mem_cons_self, heof⟩, ⟨last, List.mem_cons_self, heof⟩, ?_⟩
    rw [heof]
    decide
  have hsame : (Reading.start tokens s.nextId).cursor.current = s.cursor.current :=
    (List.cons.inj (hstart.trans (hs.trans hclose).symm)).1
  have halike : (Reading.start tokens s.nextId).Alike last rest rest s := by
    refine ⟨⟨⟨w, hstart, hs.trans hclose⟩, fun he => ?_⟩, hfaults.symm, rfl⟩
    exact absurd ((congrArg Token.kind hsame).symm.trans he) hk
  -- with as few steps as suffice for the program alone
  have hahead : s.cursor.ahead = beforeEof tokens :=
    (congrArg beforeEof (hs.trans (Cursor.remaining_ofTokens tokens).symm)).trans
      (Cursor.ahead_ofTokens tokens)
  have hsteps : 16 * (beforeEof tokens).length + 8 ≤ m := hahead ▸ Nat.le_of_not_lt hm
  obtain ⟨ss, t, hread, hprogram⟩ := Program.ofTokens_terminates tokens s.nextId
  have honward := (composed_declarations hsteps).onward (Reading.start tokens s.nextId)
  have hboth := (composed_declarations hsteps).same hp halike
  rw [hread _ (Nat.le_refl _)] at hboth honward
  rcases hboth (honward.length_lt hstart heof) with hshort | hagrees
  · cases hshort
  · obtain ⟨_, t', ht', rfl, halike'⟩ := hagrees.ok
    rw [hprogram]
    exact ⟨t', ht', congrArg List.reverse halike'.faults.symm⟩

end Read

namespace Program

/-- Behind a program without faults, reading is left with the tokens that follow it. -/
theorem ofTokens_behind {before after : List Token} {k : NodeId}
    (hbefore : (ofTokens before k).faults = []) (hafter : firstKind after ≠ .elseKw) (n : NodeId) :
    ∃ m s ss, (Reading.start (beforeEof before ++ after) n).cursor.Onward s.cursor ∧
      s.cursor.ahead = beforeEof after ∧ s.faults = [] ∧ ¬Read.TooFew m s 8 ∧
      unnumbered ss = unnumbered (ofTokens before k).statements ∧
      ∀ qs t, Read.declarations m s = .ok qs t →
        ofTokens (beforeEof before ++ after) n = ⟨ss ++ qs, t.faults.reverse, t.nextId⟩ := by
  have hclosed : (Reading.start (beforeEof before ++ after) n).cursor.Closed :=
    Cursor.closed_ofTokens _
  have hahead : (Reading.start (beforeEof before ++ after) n).cursor.ahead =
      beforeEof before ++ beforeEof after :=
    (Cursor.ahead_ofTokens _).trans (beforeEof_beforeEof_append before after)
  obtain ⟨m, s, ss, hs, honward, hss, hm, heq⟩ :=
    Read.declarations_behind (derived_of_faults_eq_nil hbefore)
      (by rwa [firstKind_beforeEof]) hclosed hahead (Read.not_tooFew_budget hclosed)
  obtain ⟨new, hnew, -, hnone⟩ := hs.faults
  refine ⟨m, s, ss, honward, hs.ahead, ?_, hm, hss, ?_⟩
  · rw [hnew, hnone fun _ hk => hk]
    rfl
  · intro qs t hread
    rw [Action.bind_ok hread] at heq
    rw [ofTokens, Read.withBudget, heq]
    rfl

/-- A program without faults, and tokens behind it that do not begin with an `else`: the statements
are those of the one and of the others, and the faults are those of the others, in their order.  The
closing token of the first program does not count; the others may have one or not. -/
theorem ofTokens_append (before after : List Token) (k m n : NodeId)
    (hbefore : (ofTokens before k).faults = []) (hafter : firstKind after ≠ .elseKw) :
    unnumbered (ofTokens (beforeEof before ++ after) n).statements =
        unnumbered (ofTokens before k).statements ++ unnumbered (ofTokens after m).statements ∧
      (ofTokens (beforeEof before ++ after) n).faults = (ofTokens after m).faults := by
  by_cases hnil : beforeEof after = []
  · -- nothing is left to read
    have hall := beforeEof_beforeEof_append before after
    rw [hnil, List.append_nil] at hall
    have hderived := derived_of_faults_eq_nil hbefore
    obtain ⟨hss, -, hfaults⟩ := ofTokens_of_derived (hall.symm ▸ hderived) n
    obtain ⟨hqs, -, hfaults'⟩ :=
      ofTokens_of_derived (hnil.symm ▸ (.nil : Declarations (· ≤ maxArity) [] [])) m
    rw [hss, hqs, hfaults fun _ hk => hk, hfaults' fun _ hk => hk]
    exact ⟨(List.append_nil _).symm, rfl⟩
  · obtain ⟨steps, s, ss, honward, hahead, hfaults, hsteps, hss, hread⟩ :=
      ofTokens_behind hbefore hafter n
    have hne : after ≠ [] := by
      rintro rfl
      exact hnil rfl
    have hk : s.cursor.kind ≠ .eof := fun hk =>
      hnil (hahead.symm.trans (Cursor.ahead_eq_nil_of_atEnd hk))
    have hremaining : s.cursor.remaining = closeTokens after := by
      obtain ⟨passed, hpassed, hpassed'⟩ := honward.ahead
      have hahead' := (Cursor.ahead_ofTokens _).symm.trans hpassed'
      rw [beforeEof_beforeEof_append, hahead] at hahead'
      have hcursor := (Cursor.remaining_ofTokens _).symm.trans hpassed
      rw [closeTokens_append hne, List.append_cancel_right hahead'] at hcursor
      exact (List.append_cancel_left hcursor).symm
    obtain ⟨t, ht, hfaults'⟩ := Read.declarations_eq_ofTokens hremaining hk hfaults hsteps
    obtain ⟨hsame, hsame'⟩ := ofTokens_anew after s.nextId m
    rw [hread _ t ht]
    refine ⟨?_, hfaults'.trans hsame'⟩
    show unnumbered (ss ++ _) = _
    rw [unnumbered, Stmt.relabelAll_append]
    exact congrArg₂ (· ++ ·) hss hsame

/-- `print true;` in front of `print; nil`, which has two faults. -/
theorem ofTokens_append_faulty :
    let word (kind : Kind) (lexeme : String) : Token := ⟨kind, lexeme, none, 1⟩
    let before := [word .printKw "print", word .trueKw "true", word .semicolon ";", .eofAt 1]
    let after := [word .printKw "print", word .semicolon ";", word .nilKw "nil"]
    (ofTokens before 0).faults = [] ∧ firstKind after ≠ .elseKw ∧
      (ofTokens after 0).faults.length = 2 ∧
      unnumbered (ofTokens (beforeEof before ++ after) 0).statements =
        unnumbered (ofTokens before 0).statements ++ unnumbered (ofTokens after 0).statements ∧
      (ofTokens (beforeEof before ++ after) 0).faults = (ofTokens after 0).faults := by
  intro word before after
  have hbefore : (ofTokens before 0).faults = [] := by decide +kernel
  have hafter : firstKind after ≠ .elseKw := by decide
  exact ⟨hbefore, hafter, by decide +kernel, ofTokens_append before after 0 0 0 hbefore hafter⟩

end Program

end LoxLang
