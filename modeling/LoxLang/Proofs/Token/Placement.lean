import LoxLang.Proofs.Token.Genuine

/-!
Where the tokens of a text stand.

`Token.placed` gives each token together with the text before it.  The tokens are those that are
read, in order (`Token.ofText_placed`), and the text goes on with the lexeme where it says
(`Token.split_of_mem_placed`).  No lexeme begins or ends with a blank (`Token.Genuine.solid`).
-/

namespace LoxLang

open Text (newlines isBlank)

/-- The segments, each with the text before it, when the first one stands behind `before`. -/
def Segment.behind (before : List Char) : List Segment → List (List Char × Segment)
  | [] => []
  | s :: rest => (before, s) :: behind (before ++ s.text) rest

/-- The tokens of a text but for the closing one, each with the text before it. -/
def Token.placed (text : String) : List (List Char × Token) :=
  (Segment.behind [] (segments text.toList)).filterMap fun p =>
    (p.2.token? (1 + newlines (p.1 ++ p.2.text))).map (Prod.mk p.1)

/-- The line on which a segment ends is given by the text up to its end. -/
theorem withLines_behind (before : List Char) (ss : List Segment) :
    withLines (1 + newlines before) ss =
      (Segment.behind before ss).map fun p => (p.2, 1 + newlines (p.1 ++ p.2.text)) := by
  induction ss generalizing before with
  | nil => rfl
  | cons s ss ih =>
    have hline : 1 + newlines before + newlines s.text = 1 + newlines (before ++ s.text) := by
      rw [Text.newlines_append, Nat.add_assoc]
    rw [withLines, Segment.behind, List.map_cons, ← ih, hline]

theorem split_of_mem_behind {before : List Char} {ss : List Segment} {p : List Char × Segment}
    (h : p ∈ Segment.behind before ss) :
    ∃ after, before ++ (ss.map (·.text)).flatten = p.1 ++ p.2.text ++ after := by
  induction ss generalizing before with
  | nil => cases h
  | cons s ss ih =>
    rcases List.mem_cons.1 h with rfl | h
    · exact ⟨(ss.map (·.text)).flatten, (List.append_assoc _ _ _).symm⟩
    · obtain ⟨after, hafter⟩ := ih h
      refine ⟨after, ?_⟩
      rw [← hafter, List.map_cons, List.flatten_cons, List.append_assoc]

namespace Token

theorem ofText_placed (text : String) :
    ofText text = (placed text).map Prod.snd ++ [eofAt (1 + newlines text.toList)] := by
  have hlines := withLines_behind [] (segments text.toList)
  rw [Text.newlines_nil, Nat.add_zero] at hlines
  rw [ofText, hlines, List.filterMap_map, placed, List.map_filterMap]
  congr 2
  funext p
  rw [Option.map_map]
  exact Option.map_id'.symm

theorem placed_of_getElem? {text : String} {i : Nat} {t : Token} (h : (ofText text)[i]? = some t)
    (hk : t.kind ≠ .eof) : ∃ before, (placed text)[i]? = some (before, t) := by
  rw [ofText_placed, List.getElem?_append] at h
  split at h
  · rw [List.getElem?_map, Option.map_eq_some_iff] at h
    obtain ⟨⟨before, u⟩, hu, rfl⟩ := h
    exact ⟨before, hu⟩
  · have hlast := List.mem_of_getElem? h
    rw [List.mem_singleton.1 hlast] at hk
    exact absurd rfl hk

/-- A token stands where it is placed, and its line is that on which its lexeme ends. -/
theorem split_of_mem_placed {text : String} {before : List Char} {t : Token}
    (h : (before, t) ∈ placed text) :
    ∃ after, text.toList = before ++ t.lexeme.toList ++ after ∧
      t.line = 1 + newlines (before ++ t.lexeme.toList) := by
  obtain ⟨p, hp, htoken⟩ := List.mem_filterMap.1 h
  obtain ⟨u, hu, he⟩ := Option.map_eq_some_iff.1 htoken
  obtain ⟨rfl, rfl⟩ := Prod.mk.inj he
  obtain ⟨after, hsplit⟩ := split_of_mem_behind hp
  rw [List.nil_append, join_segments] at hsplit
  obtain ⟨before, piece, text⟩ := p
  cases piece with
  | token kind =>
    cases hu
    refine ⟨after, ?_, ?_⟩
    · rw [String.toList_ofList]
      exact hsplit
    · rw [String.toList_ofList]
  | blank | comment | unexpected | unterminated => cases hu

theorem genuine_of_mem_placed {text : String} {before : List Char} {t : Token}
    (h : (before, t) ∈ placed text) : t.Genuine := by
  have hmem : t ∈ (placed text).map Prod.snd := List.mem_map.2 ⟨_, h, rfl⟩
  have hsame := ofText_placed text
  rw [ofText] at hsame
  rw [← List.append_cancel_right hsame] at hmem
  exact genuine_of_mem_segmentsUpTo _ _ _ hmem

end Token

/-! ## The ends of a lexeme -/

/-- A text that is not empty and has no blank at either end. -/
structure Text.Solid (cs : List Char) : Prop where
  ne_nil : cs ≠ []
  head : ∀ c ∈ cs.head?, isBlank c = false
  last : ∀ c ∈ cs.getLast?, isBlank c = false

theorem Text.solid_of_forall {cs : List Char} (hne : cs ≠ []) (h : ∀ c ∈ cs, isBlank c = false) :
    Solid cs :=
  ⟨hne, fun c hc => h c (List.mem_of_mem_head? hc), fun c hc => h c (List.mem_of_mem_getLast? hc)⟩

theorem isBlank_eq_false {c : Char} (h : startsWord c = true ∨ c.isDigit = true) :
    isBlank c = false := by
  rw [← Bool.not_eq_true]
  intro hblank
  obtain ⟨hstart, hdigit⟩ := not_inWord_of_isBlank hblank
  rw [hstart, hdigit] at h
  rcases h with h | h
  · cases h
  · cases h

theorem startsWord_or_isDigit {c : Char} (h : inWord c = true) :
    startsWord c = true ∨ c.isDigit = true := by
  simp only [inWord, Char.isAlphanum, Bool.or_eq_true] at h
  rcases h with (h | h) | h
  · exact .inl (by simp [startsWord, h])
  · exact .inr h
  · exact .inl (by simp [startsWord, h])

theorem Number.IsNumeral.solid {cs : List Char} (h : IsNumeral cs) : Text.Solid cs := by
  cases h with
  | whole hne hd => exact Text.solid_of_forall hne fun c hc => isBlank_eq_false (.inr (hd c hc))
  | fraction hne hd _ hd' =>
    refine Text.solid_of_forall (by simp) fun c hc => ?_
    rcases List.mem_append.1 hc with hc | hc
    · exact isBlank_eq_false (.inr (hd c hc))
    · rcases List.mem_cons.1 hc with rfl | hc
      · decide
      · exact isBlank_eq_false (.inr (hd' c hc))

theorem Token.Genuine.solid {t : Token} (h : t.Genuine) : Text.Solid t.lexeme.toList := by
  have hmarks : ∀ m ∈ marks, (m.1.all fun c => !isBlank c) = true := by decide
  cases h with
  | @word c cs line hc hcs =>
    rw [String.toList_ofList]
    refine Text.solid_of_forall (List.cons_ne_nil _ _) fun d hd => ?_
    rcases List.mem_cons.1 hd with rfl | hd
    · exact isBlank_eq_false (.inl hc)
    · exact isBlank_eq_false (startsWord_or_isDigit (hcs d hd))
  | number hn =>
    rw [String.toList_ofList]
    exact hn.solid
  | @string body line _ =>
    rw [String.toList_ofList]
    constructor
    · simp
    · intro c hc
      cases hc
      decide
    · intro c hc
      rw [← List.cons_append, List.getLast?_concat] at hc
      cases hc
      decide
  | mark hm =>
    rw [String.toList_ofList]
    refine Text.solid_of_forall (Segment.marks_ne_nil _ hm) fun c hc => ?_
    simpa using List.all_eq_true.1 (hmarks _ hm) c hc

end LoxLang
