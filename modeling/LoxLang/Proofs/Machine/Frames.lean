import LoxLang.Frame

/-!
What becomes of the frames when a name is bound or a frame is added.

Binding a name changes that name in that frame (`read?_define_self`) and nothing else; a new frame
changes no old one.  A frame with bindings is an empty frame in which they are bound one after the other
(`push_eq_foldl`).
-/

namespace LoxLang.Store

variable {ε : Type}

/-! ## Frames that there are -/

theorem binds_eq_isSome (s : Store ε) (f : FrameId) (name : String) :
    s.binds f name = (s.read? f name).isSome := by
  unfold binds read?
  cases s.frames[f]? with
  | none => rfl
  | some frame => rfl

theorem read?_eq_none_of_le {s : Store ε} {f : FrameId} (hf : s.frames.size ≤ f) (name : String) :
    s.read? f name = none := by
  rw [read?, Array.getElem?_eq_none hf]
  rfl

theorem lt_size_of_read? {s : Store ε} {f : FrameId} {name : String} {value : Value ε}
    (h : s.read? f name = some value) : f < s.frames.size := by
  obtain ⟨frame, hframe, -⟩ := Option.bind_eq_some_iff.1 h
  exact (Array.getElem?_eq_some_iff.1 hframe).1

theorem lt_size_of_binds {s : Store ε} {f : FrameId} {name : String} (h : s.binds f name = true) :
    f < s.frames.size := by
  rw [binds_eq_isSome] at h
  obtain ⟨value, hvalue⟩ := Option.isSome_iff_exists.1 h
  exact lt_size_of_read? hvalue

theorem lt_size_of_enclosing? {s : Store ε} {f outer : FrameId} (h : s.enclosing? f = some outer) :
    f < s.frames.size := by
  obtain ⟨frame, hframe, -⟩ := Option.bind_eq_some_iff.1 h
  exact (Array.getElem?_eq_some_iff.1 hframe).1

/-! ## Binding a name -/

@[simp] theorem size_define (s : Store ε) (f : FrameId) (name : String) (value : Value ε) :
    (s.define f name value).frames.size = s.frames.size := Array.size_modify

theorem getElem?_define (s : Store ε) (f g : FrameId) (name : String) (value : Value ε) :
    (s.define f name value).frames[g]? =
      if f = g then (s.frames[g]?).map (·.set name value) else s.frames[g]? :=
  Array.getElem?_modify

@[simp] theorem enclosing?_define (s : Store ε) (f g : FrameId) (name : String) (value : Value ε) :
    (s.define f name value).enclosing? g = s.enclosing? g := by
  rw [enclosing?, enclosing?, getElem?_define]
  by_cases h : f = g
  · rw [if_pos h]
    cases s.frames[g]? with
    | none => rfl
    | some frame => rfl
  · rw [if_neg h]

theorem read?_define_self {s : Store ε} {f : FrameId} (hf : f < s.frames.size) (name : String)
    (value : Value ε) : (s.define f name value).read? f name = some value := by
  rw [read?, getElem?_define, if_pos rfl, Array.getElem?_eq_getElem hf]
  show Frame.get? _ name = some value
  rw [Frame.get?_set, if_pos rfl]

theorem read?_define_other (s : Store ε) {f g : FrameId} {name other : String} (value : Value ε)
    (h : ¬ (g = f ∧ other = name)) :
    (s.define f name value).read? g other = s.read? g other := by
  rw [read?, read?, getElem?_define]
  by_cases hf : f = g
  · have hname : other ≠ name := fun he => h ⟨hf.symm, he⟩
    rw [if_pos hf]
    cases s.frames[g]? with
    | none => rfl
    | some frame =>
      show Frame.get? _ other = frame.get? other
      rw [Frame.get?_set, if_neg hname]
  · rw [if_neg hf]

/-- What is read afterwards is the new value, or was there before. -/
theorem read?_define_cases {s : Store ε} {f g : FrameId} {name other : String} {value w : Value ε}
    (h : (s.define f name value).read? g other = some w) :
    w = value ∨ s.read? g other = some w := by
  by_cases hsame : g = f ∧ other = name
  · obtain ⟨rfl, rfl⟩ := hsame
    have hg : g < s.frames.size := size_define s g other value ▸ lt_size_of_read? h
    exact .inl (Option.some.inj (h.symm.trans (read?_define_self hg other value)))
  · exact .inr ((read?_define_other s value hsame).symm.trans h)

theorem binds_define (s : Store ε) (f g : FrameId) (name other : String) (value : Value ε) :
    (s.define f name value).binds g other = true ↔
      s.binds g other = true ∨ (g = f ∧ other = name ∧ f < s.frames.size) := by
  rw [binds_eq_isSome, binds_eq_isSome]
  by_cases hsame : g = f ∧ other = name
  · obtain ⟨rfl, rfl⟩ := hsame
    by_cases hlt : g < s.frames.size
    · rw [read?_define_self hlt]
      simp [hlt]
    · have hle : s.frames.size ≤ g := Nat.le_of_not_lt hlt
      rw [read?_eq_none_of_le hle, read?_eq_none_of_le (by rwa [size_define])]
      simp [hlt]
  · rw [read?_define_other s value hsame]
    constructor
    · exact Or.inl
    · rintro (h | ⟨hg, ho, -⟩)
      · exact h
      · exact absurd ⟨hg, ho⟩ hsame

/-! ## Adding a frame -/

@[simp] theorem size_push (s : Store ε) (f : FrameId) (bindings : List (String × Value ε)) :
    (s.push f bindings).frames.size = s.frames.size + 1 := Array.size_push _

theorem getElem?_push (s : Store ε) (f g : FrameId) (bindings : List (String × Value ε)) :
    (s.push f bindings).frames[g]? =
      if g = s.frames.size then
        some (bindings.foldl (fun frame b => frame.set b.1 b.2) ⟨[], some f⟩)
      else s.frames[g]? :=
  Array.getElem?_push

theorem enclosing_foldl_set (frame : Frame ε) (bindings : List (String × Value ε)) :
    (bindings.foldl (fun frame b => frame.set b.1 b.2) frame).enclosing = frame.enclosing := by
  induction bindings generalizing frame with
  | nil => rfl
  | cons b bindings ih => exact ih (frame.set b.1 b.2)

/-- A bound name has one of the values that it was bound to. -/
theorem get?_foldl_set {bindings : List (String × Value ε)} {frame : Frame ε} {name : String}
    {value : Value ε}
    (h : (bindings.foldl (fun frame b => frame.set b.1 b.2) frame).get? name = some value) :
    frame.get? name = some value ∨ ∃ b ∈ bindings, b.2 = value := by
  induction bindings generalizing frame with
  | nil => exact .inl h
  | cons b bindings ih =>
    rcases ih h with hset | ⟨c, hc, hv⟩
    · rw [Frame.get?_set] at hset
      by_cases hname : name = b.1
      · rw [if_pos hname] at hset
        exact .inr ⟨b, List.mem_cons_self, Option.some.inj hset⟩
      · rw [if_neg hname] at hset
        exact .inl hset
    · exact .inr ⟨c, List.mem_cons_of_mem _ hc, hv⟩

/-- Names that are bound in turn are all bound in the end. -/
theorem isSome_foldl_set {bindings : List (String × Value ε)} {frame : Frame ε} {name : String}
    (h : name ∈ bindings.map Prod.fst ∨ (frame.get? name).isSome) :
    ((bindings.foldl (fun frame b => frame.set b.1 b.2) frame).get? name).isSome := by
  induction bindings generalizing frame with
  | nil => exact h.resolve_left List.not_mem_nil
  | cons b bindings ih =>
    refine ih ?_
    rw [Frame.get?_set]
    by_cases hname : name = b.1
    · rw [if_pos hname]
      exact .inr rfl
    · rw [if_neg hname]
      exact h.imp_left fun hmem => (List.mem_cons.1 hmem).resolve_left hname

theorem enclosing?_push (s : Store ε) (f g : FrameId) (bindings : List (String × Value ε)) :
    (s.push f bindings).enclosing? g = if g = s.frames.size then some f else s.enclosing? g := by
  rw [enclosing?, enclosing?, getElem?_push]
  by_cases hg : g = s.frames.size
  · rw [if_pos hg, if_pos hg]
    exact enclosing_foldl_set _ bindings
  · rw [if_neg hg, if_neg hg]

/-- An empty frame binds no name, and neither did the place where it is now. -/
theorem read?_push_nil (s : Store ε) (f g : FrameId) (name : String) :
    (s.push f []).read? g name = s.read? g name := by
  rw [read?, read?, getElem?_push]
  by_cases hg : g = s.frames.size
  · rw [if_pos hg, hg, Array.getElem?_eq_none (Nat.le_refl _)]
    rfl
  · rw [if_neg hg]

/-- What is read afterwards is one of the bindings, or was there before. -/
theorem read?_push_cases {s : Store ε} {f g : FrameId} {bindings : List (String × Value ε)}
    {name : String} {w : Value ε} (h : (s.push f bindings).read? g name = some w) :
    (∃ b ∈ bindings, b.2 = w) ∨ s.read? g name = some w := by
  rw [read?, getElem?_push] at h
  by_cases hg : g = s.frames.size
  · rw [if_pos hg] at h
    rcases get?_foldl_set h with hempty | hbound
    · cases hempty
    · exact .inl hbound
  · rw [if_neg hg] at h
    exact .inr h

theorem binds_push_of_lt {s : Store ε} {f g : FrameId} {bindings : List (String × Value ε)}
    {name : String} (hg : g < s.frames.size) :
    (s.push f bindings).binds g name = s.binds g name := by
  rw [binds, getElem?_push, if_neg (Nat.ne_of_lt hg), binds]

theorem define_push (s : Store ε) (frame : Frame ε) (name : String) (value : Value ε) :
    (⟨s.frames.push frame⟩ : Store ε).define s.frames.size name value =
      ⟨s.frames.push (frame.set name value)⟩ := by
  refine congrArg Store.mk (Array.ext_getElem? fun g => ?_)
  rw [Array.getElem?_modify, Array.getElem?_push, Array.getElem?_push]
  by_cases hg : g = s.frames.size
  · rw [if_pos hg.symm, if_pos hg, if_pos hg]
    rfl
  · rw [if_neg (Ne.symm hg), if_neg hg, if_neg hg]

/-- A frame with bindings is an empty one in which they are bound in turn. -/
theorem push_eq_foldl (s : Store ε) (f : FrameId) (bindings : List (String × Value ε)) :
    s.push f bindings =
      bindings.foldl (fun t b => t.define s.nextFrame b.1 b.2) (s.push f []) := by
  have hstep : ∀ frame : Frame ε,
      (⟨s.frames.push (bindings.foldl (fun frame b => frame.set b.1 b.2) frame)⟩ : Store ε) =
        bindings.foldl (fun t b => t.define s.nextFrame b.1 b.2) ⟨s.frames.push frame⟩ := by
    induction bindings with
    | nil => exact fun _ => rfl
    | cons b bindings ih =>
      intro frame
      rw [List.foldl_cons, List.foldl_cons, ih, nextFrame, define_push]
  exact hstep ⟨[], some f⟩

/-! ## The global frame -/

/-- From a frame without one around it a name is found in that frame or not at all. -/
theorem owner?_of_outermost {s : Store ε} {f : FrameId} (h : s.enclosing? f = none)
    (name : String) : s.owner? f name = if s.binds f name then some f else none := by
  unfold owner?
  cases s.frames.size with
  | zero => rfl
  | succ steps => rw [ownerWithin?, h, Option.bind_none]

theorem get?_of_outermost {s : Store ε} {f : FrameId} (h : s.enclosing? f = none)
    (name : String) : s.get? f name = s.read? f name := by
  rw [get?, owner?_of_outermost h, binds_eq_isSome]
  cases hr : s.read? f name with
  | none => rfl
  | some value => exact hr

end LoxLang.Store
