import LoxLang.Proofs.Scope.Accepted

/-!
Node numbers, and the table that is kept by them.

Programs are read one after the other, each numbered from where the one before it stopped, so no two
reads or assignments anywhere have one number (`Program.readAll_numbered`).  Resolution enters a
number of its own program at most once (`entries_sublist`).  So the table of distances of a session has
no entries yet for a program that comes to be added (`Grown`), and entries are never written over
(`Session.table_only_grows`).
-/

namespace LoxLang

/-! ## Programs one after the other -/

/-- Reads lists of tokens one after the other, numbering the nodes throughout. -/
def Program.readAll (nextId : NodeId) : List (List Token) → List Program
  | [] => []
  | tokens :: rest =>
    let program := ofTokens tokens nextId
    program :: readAll program.nextId rest

/-- No two nodes of programs read one after the other have the same number. -/
theorem Program.readAll_numbered (nextId : NodeId) (texts : List (List Token)) :
    ((readAll nextId texts).flatMap fun p => Stmt.idsAll p.statements).Nodup ∧
      ∀ id ∈ (readAll nextId texts).flatMap fun p => Stmt.idsAll p.statements, nextId ≤ id := by
  induction texts generalizing nextId with
  | nil => exact ⟨List.nodup_nil, fun id hid => nomatch hid⟩
  | cons tokens rest ih =>
    obtain ⟨hle, hnodup, hids⟩ := statements_numbered tokens nextId
    obtain ⟨hrest, hlater⟩ := ih (ofTokens tokens nextId).nextId
    rw [readAll, List.flatMap_cons]
    refine ⟨List.nodup_append.2 ⟨hnodup, hrest, fun id hid id' hid' => ?_⟩, fun id hid => ?_⟩
    · exact Nat.ne_of_lt (Nat.lt_of_lt_of_le (hids id hid).2 (hlater id' hid'))
    · rcases List.mem_append.1 hid with hhere | hthere
      · exact (hids id hhere).1
      · exact Nat.le_trans hle (hlater id hthere)

/-! ## Entries of a program -/

/-- What the resolution of a program enters into the table, from left to right. -/
def entriesIn (program : List Stmt) : List (NodeId × Nat) :=
  (findingsIn program).filterMap (·.local?)

theorem mem_entriesIn {program : List Stmt} {id : NodeId} {distance : Nat} :
    (id, distance) ∈ entriesIn program ↔
      ∃ use : Reference, use.id = id ∧ .reference use (some distance) ∈ findingsIn program := by
  refine List.mem_filterMap.trans ⟨fun ⟨f, hf, hlocal⟩ => ?_, fun ⟨use, hid, hfound⟩ => ?_⟩
  · cases f with
    | fault e => cases hlocal
    | reference use found =>
      cases found with
      | none => cases hlocal
      | some d =>
        cases hlocal
        exact ⟨use, rfl, hf⟩
  · exact ⟨_, hfound, congrArg some (Prod.ext hid rfl)⟩

theorem local?_sublist_id? (findings : List Finding) :
    ((findings.filterMap (·.local?)).map (·.1)).Sublist (findings.filterMap (·.id?)) := by
  induction findings with
  | nil => exact .slnil
  | cons f findings ih =>
    cases f with
    | fault e => exact ih
    | reference use distance =>
      cases distance with
      | none => exact ih.cons use.id
      | some d => exact ih.cons_cons use.id

/-- Each node is entered at most once, and nothing but nodes of the program is. -/
theorem entries_sublist (program : List Stmt) :
    ((entriesIn program).map (·.1)).Sublist (Stmt.idsAll program) := by
  rw [← Stmt.ids_findingsAll program false []]
  exact local?_sublist_id? (findingsIn program)

namespace Session

variable {host : Host} {bound : Nat} {listed : Listings} {source : String} {report : Report}
  {s t : Session}

/-! ## The table of a session -/

/-- A run takes the numbers of its nodes, and adds its entries to the table unless it is rejected. -/
theorem table_of_run (h : s.run host bound listed source = some report) :
    report.session.nextId = (analyse source s.nextId).program.nextId ∧
      report.session.locals = if (analyse source s.nextId).faults = [] then
        s.locals.extend (analyse source s.nextId).findings else s.locals := by
  rw [run] at h
  -- what the analysis is does not matter
  generalize analyse source s.nextId = a at h ⊢
  by_cases hf : a.faults = []
  · have haccepted : ¬ (!a.faults.isEmpty) = true := by simp [hf]
    rw [if_neg haccepted] at h
    rw [if_pos hf]
    dsimp only at h
    generalize Run.executeProgram _ _ _ _ = o at h
    cases o with
    | ok u m =>
      cases h
      exact ⟨rfl, rfl⟩
    | error e m =>
      cases e with
      | fault d =>
        cases h
        exact ⟨rfl, rfl⟩
      | malformed operator => cases h
    | exhausted => cases h
  · have hrejected : (!a.faults.isEmpty) = true := by simp [hf]
    rw [if_pos hrejected] at h
    rw [if_neg hf]
    cases h
    exact ⟨rfl, rfl⟩

/-- What may become of a session: it runs texts, and between them others may use up node numbers. -/
inductive Leads (host : Host) (s : Session) : Session → Prop
  | refl : Leads host s s
  | others {t : Session} {n : NodeId} : Leads host s t → t.nextId ≤ n →
      Leads host s { t with nextId := n }
  | run {t : Session} {bound : Nat} {listed : Listings} {source : String} {report : Report} :
      Leads host s t → t.run host bound listed source = some report → Leads host s report.session

/-- What is entered for numbers that were given out stays, and there are no entries ahead of time. -/
structure Grown (s t : Session) : Prop where
  nextId : s.nextId ≤ t.nextId
  old : ∀ id < s.nextId, t.locals[id]? = s.locals[id]?
  unused : Unused t.locals t.nextId

theorem Grown.refl (h : Unused s.locals s.nextId) : Grown s s :=
  ⟨Nat.le_refl _, fun _ _ => rfl, h⟩

theorem Grown.others (h : Grown s t) {n : NodeId} (hn : t.nextId ≤ n) :
    Grown s { t with nextId := n } :=
  ⟨Nat.le_trans h.nextId hn, h.old, h.unused.mono hn⟩

theorem Grown.run (h : Grown s t) (hrun : t.run host bound listed source = some report) :
    Grown s report.session := by
  obtain ⟨hnextId, htable⟩ := table_of_run hrun
  have hle := nextId_le_analyse source t.nextId
  have hlater : s.nextId ≤ report.session.nextId := hnextId ▸ Nat.le_trans h.nextId hle
  by_cases hf : (analyse source t.nextId).faults = []
  · obtain ⟨-, -, hold, hunused⟩ := accepted source h.unused hf
    rw [if_pos hf] at htable
    refine ⟨hlater, fun id hid => ?_, by rwa [htable, hnextId]⟩
    rw [htable, hold id (Nat.lt_of_lt_of_le hid h.nextId), h.old id hid]
  · rw [if_neg hf] at htable
    refine ⟨hlater, fun id hid => by rw [htable, h.old id hid], ?_⟩
    rw [htable, hnextId]
    exact h.unused.mono hle

theorem Leads.grown (h : s.Leads host t) (hs : Unused s.locals s.nextId) : Grown s t := by
  induction h with
  | refl => exact .refl hs
  | others _ hn ih => exact ih.others hn
  | run _ hrun ih => exact ih.run hrun

theorem Leads.unused (h : (start host).Leads host s) : Unused s.locals s.nextId :=
  (h.grown (unused_empty 0)).unused

/-- The table has an entry for given numbers only, so it keeps all that it has. -/
theorem Grown.keeps (h : Grown s t) (hs : Unused s.locals s.nextId) {id : NodeId} {distance : Nat}
    (hid : s.locals[id]? = some distance) : t.locals[id]? = some distance := by
  have hlt : id < s.nextId := Nat.lt_of_not_le fun hle => by
    rw [hs id hle] at hid
    cases hid
  rw [h.old id hlt, hid]

/-- Node numbers are not given out twice, and the table of distances only grows.

However many lists of tokens are read one after the other, with errors or without, the reads and
assignments in what is read have numbers that are all different.  Resolution enters each node of its
program at most once, and no other number.  And in a session, whatever was run before, none of the
entries of a run is in the table yet; and whatever is run later, what was in the table stays there, and
each node of the run keeps the distance that was found for it, or stays without one. -/
theorem table_only_grows (host : Host) :
    (∀ (nextId : NodeId) (texts : List (List Token)),
      ((Program.readAll nextId texts).flatMap fun p => Stmt.idsAll p.statements).Nodup) ∧
    (∀ program : List Stmt, ((entriesIn program).map (·.1)).Sublist (Stmt.idsAll program)) ∧
    ∀ (s : Session) (bound : Nat) (listed : Listings) (source : String) (report : Report),
      (start host).Leads host s → s.run host bound listed source = some report →
        let analysis := analyse source s.nextId
        let program := analysis.program.statements
        (report.session.locals = if analysis.faults = [] then
          (entriesIn program).foldl (fun table entry => table.insert entry.1 entry.2) s.locals
          else s.locals) ∧
        (∀ entry ∈ entriesIn program, s.locals[entry.1]? = none) ∧
        ∀ t, report.session.Leads host t →
          (∀ (id : NodeId) (distance : Nat), s.locals[id]? = some distance →
            t.locals[id]? = some distance) ∧
          (∀ id ∈ Stmt.idsAll program, t.locals[id]? = report.session.locals[id]?) ∧
          (analysis.faults = [] → ∀ use distance, .reference use distance ∈ findingsIn program →
            t.locals[use.id]? = distance) := by
  refine ⟨fun nextId texts => (Program.readAll_numbered nextId texts).1, entries_sublist, ?_⟩
  intro s bound listed source report hs hrun analysis program
  obtain ⟨hnextId, htable⟩ := table_of_run hrun
  obtain ⟨-, -, hids⟩ := Program.statements_numbered (Token.ofText source) s.nextId
  have hunused := hs.unused
  have hhere : Grown s report.session := (Grown.refl hunused).run hrun
  refine ⟨htable, fun entry hentry => ?_, fun t ht => ?_⟩
  · have hmem : entry.1 ∈ Stmt.idsAll program :=
      (entries_sublist program).subset (List.mem_map_of_mem hentry)
    exact hunused entry.1 (hids entry.1 hmem).1
  · have hthere : Grown report.session t := ht.grown hhere.unused
    have hkept : ∀ id ∈ Stmt.idsAll program, t.locals[id]? = report.session.locals[id]? :=
      fun id hid => hthere.old id (hnextId ▸ (hids id hid).2)
    refine ⟨fun id distance hid => hthere.keeps hhere.unused (hhere.keeps hunused hid), hkept, ?_⟩
    intro hf use distance hfound
    have hmem : use.id ∈ Stmt.idsAll program :=
      Stmt.ids_findingsAll program false [] ▸ List.mem_filterMap.2 ⟨_, hfound, rfl⟩
    obtain ⟨-, hsettled, -, -⟩ := accepted source hunused hf
    rw [hkept use.id hmem, htable, if_pos hf]
    exact (hsettled _ hfound).2

/-- A function that a program leaves behind reads a variable of a block when a later program calls it. -/
theorem table_only_grows_later_call :
    let host := Host.timed fun _ => .ok 0
    ∃ first second, (start host).run host 20 {}
        "var g; { var a = true; fun f() { print a; } g = f; }" = some first ∧
      first.session.run host 20 {} "g();" = some second ∧
      second.lines = ["true"] ∧ second.session.locals[0]? = some 1 := by
  intro host
  have hruns : (((start host).run host 20 {}
      "var g; { var a = true; fun f() { print a; } g = f; }").bind fun first =>
        (first.session.run host 20 {} "g();").map (·.lines)) = some ["true"] := by decide +kernel
  obtain ⟨first, hfirst, hlater⟩ := Option.bind_eq_some_iff.1 hruns
  obtain ⟨second, hsecond, hlines⟩ := Option.map_eq_some_iff.1 hlater
  obtain ⟨-, -, hkeeps⟩ := (table_only_grows host).2.2 _ 20 {} _ first .refl hfirst
  obtain ⟨-, -, hdistance⟩ := hkeeps _ (.run .refl hsecond)
  have hfaults : (analyse "var g; { var a = true; fun f() { print a; } g = f; }" 0).faults = [] := by
    decide +kernel
  have hentry : (0, 1) ∈ entriesIn
      (analyse "var g; { var a = true; fun f() { print a; } g = f; }" 0).program.statements := by
    decide +kernel
  obtain ⟨use, hid, hfound⟩ := mem_entriesIn.1 hentry
  have hkept := hdistance hfaults use (some 1) hfound
  rw [hid] at hkept
  exact ⟨first, second, hfirst, hsecond, hlines, hkept⟩

end Session

end LoxLang
