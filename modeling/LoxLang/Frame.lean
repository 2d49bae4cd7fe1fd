import LoxLang.Value

/-!
Frames: where running programs keep the values of their variables.

A frame binds names to values and is enclosed by at most one other frame, an older one.  All frames
of a run live in one store, numbered in the order of their creation, and none is ever removed, so
closures and the blocks that created them share their frames.  A variable is found by its name, in
the nearest frame that binds it, or by its distance, in the frame so many steps outward.
-/

namespace LoxLang

structure Frame (ε : Type := FrameId) where
  bindings : List (String × Value ε) := []
  enclosing : Option FrameId := none

variable {ε : Type}

namespace Frame

def get? (f : Frame ε) (name : String) : Option (Value ε) := f.bindings.lookup name

def binds (f : Frame ε) (name : String) : Bool := (f.get? name).isSome

/-- The bindings with the value of a bound name replaced, or a binding added. -/
def put (name : String) (value : Value ε) : List (String × Value ε) → List (String × Value ε)
  | [] => [(name, value)]
  | b :: rest => if name == b.1 then (name, value) :: rest else b :: put name value rest

/-- Binds a name, whether it was bound before or not. -/
def set (f : Frame ε) (name : String) (value : Value ε) : Frame ε :=
  { f with bindings := put name value f.bindings }

theorem get?_set (f : Frame ε) (name other : String) (value : Value ε) :
    (f.set name value).get? other = if other = name then some value else f.get? other := by
  simp only [get?, set]
  induction f.bindings with
  | nil =>
    simp only [put, List.lookup_cons, List.lookup_nil]
    by_cases h : other = name <;> simp [h, beq_eq_false_iff_ne.2]
  | cons b rest ih =>
    obtain ⟨key, old⟩ := b
    by_cases hk : name = key
    · subst hk
      simp only [put, BEq.rfl, if_true, List.lookup_cons]
      by_cases h : other = name <;> simp [h, beq_eq_false_iff_ne.2]
    · simp only [put, beq_eq_false_iff_ne.2 hk, Bool.false_eq_true, if_false, List.lookup_cons, ih]
      by_cases ho : other = key
      · simp [ho, Ne.symm hk]
      · simp [beq_eq_false_iff_ne.2 ho]

@[simp] theorem enclosing_set (f : Frame ε) (name : String) (value : Value ε) :
    (f.set name value).enclosing = f.enclosing := rfl

end Frame

/-- The frames of a run. -/
structure Store (ε : Type := FrameId) where
  frames : Array (Frame ε)

namespace Store

/-- The store with the global frame only. -/
def initial : Store ε := ⟨#[{}]⟩

/-- The number of the global frame. -/
def globalFrame : FrameId := 0

def enclosing? (s : Store ε) (f : FrameId) : Option FrameId := (s.frames[f]?).bind (·.enclosing)

def binds (s : Store ε) (f : FrameId) (name : String) : Bool :=
  match s.frames[f]? with
  | none => false
  | some frame => frame.binds name

/-- The value of a name in one frame. -/
def read? (s : Store ε) (f : FrameId) (name : String) : Option (Value ε) :=
  (s.frames[f]?).bind (·.get? name)

/-- Binds a name in one frame. -/
def define (s : Store ε) (f : FrameId) (name : String) (value : Value ε) : Store ε :=
  ⟨s.frames.modify f (·.set name value)⟩

/-- A new frame enclosed by `f`, with the given bindings in order. -/
def push (s : Store ε) (f : FrameId) (bindings : List (String × Value ε)) : Store ε :=
  ⟨s.frames.push (bindings.foldl (fun frame b => frame.set b.1 b.2) ⟨[], some f⟩)⟩

/-- The number that the next new frame gets. -/
def nextFrame (s : Store ε) : FrameId := s.frames.size

/-! ## Finding variables -/

/-- The frame `distance` steps outward. -/
def ancestor? (s : Store ε) (f : FrameId) : Nat → Option FrameId
  | 0 => some f
  | distance + 1 => (s.enclosing? f).bind fun outer => s.ancestor? outer distance

/-- The nearest frame that binds a name, at most `steps` steps outward. -/
def ownerWithin? (s : Store ε) (name : String) : Nat → FrameId → Option FrameId
  | 0, f => if s.binds f name then some f else none
  | steps + 1, f =>
    if s.binds f name then some f
    else (s.enclosing? f).bind fun outer => s.ownerWithin? name steps outer

/-- The nearest frame that binds a name.  Enclosing frames are older, so there are fewer steps
outward than frames. -/
def owner? (s : Store ε) (f : FrameId) (name : String) : Option FrameId :=
  s.ownerWithin? name s.frames.size f

/-- The frame `distance` steps outward, if it binds the name. -/
def ownerAt? (s : Store ε) (f : FrameId) (distance : Nat) (name : String) : Option FrameId :=
  (s.ancestor? f distance).filter fun frame => s.binds frame name

def get? (s : Store ε) (f : FrameId) (name : String) : Option (Value ε) :=
  (s.owner? f name).bind fun owner => s.read? owner name

/-- Gives a bound name another value, in the nearest frame that binds it. -/
def assign? (s : Store ε) (f : FrameId) (name : String) (value : Value ε) : Option (Store ε) :=
  (s.owner? f name).map fun owner => s.define owner name value

def getAt? (s : Store ε) (f : FrameId) (distance : Nat) (name : String) : Option (Value ε) :=
  (s.ancestor? f distance).bind fun frame => s.read? frame name

/-- Gives a bound name another value, in the frame `distance` steps outward. -/
def assignAt? (s : Store ε) (f : FrameId) (distance : Nat) (name : String) (value : Value ε) :
    Option (Store ε) :=
  (s.ownerAt? f distance name).map fun owner => s.define owner name value

end Store

end LoxLang
