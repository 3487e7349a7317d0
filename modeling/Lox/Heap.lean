import Lox.Value

/-!
# Frames

A frame binds names to values and may have a parent, the frame of the scope around it. All frames
live in one heap and are never moved or dropped, so a frame stands for itself in every scope and
function that sees it. A name belongs to the nearest frame outward that binds it, its owner.

A parent is older than its children. `owner?` relies on this and goes outward to older frames only.

Results: `Frame.get?_define` (a definition gives one name one value), `Heap.size_define` and
`Heap.size_push` (a definition makes no frame, `push` makes one).
-/
namespace Lox

/-- Names with their values, each name at most once. -/
abbrev Bindings := List (String × Value)

namespace Bindings

def get? (name : String) : Bindings → Option Value
  | [] => none
  | (n, v) :: rest => if n = name then some v else get? name rest

/-- Drops the binding of a name. -/
def erase (name : String) (bs : Bindings) : Bindings := bs.eraseP fun b => b.1 = name

@[simp] theorem get?_erase {name other : String} (h : other ≠ name) (bs : Bindings) :
    get? other (erase name bs) = get? other bs := by
  induction bs with
  | nil => rfl
  | cons b bs ih =>
    obtain ⟨n, v⟩ := b
    by_cases hn : n = name
    · subst hn; simp [erase, get?, h.symm]
    · have : erase name ((n, v) :: bs) = (n, v) :: erase name bs := by simp [erase, hn]
      simp [this, get?, ih]

end Bindings

/-- The variables of a scope, and the scope around it (`Environment`). -/
structure Frame where
  parent : Option FrameId
  vars : Bindings

namespace Frame

def get? (f : Frame) (name : String) : Option Value := f.vars.get? name

def binds (f : Frame) (name : String) : Bool := (f.get? name).isSome

/-- Binds `name` in this frame, in place of an earlier binding of it
(`Environment.define_variable`). -/
def define (f : Frame) (name : String) (value : Value) : Frame :=
  { f with vars := (name, value) :: f.vars.erase name }

@[simp] theorem parent_define (f : Frame) (name : String) (value : Value) :
    (f.define name value).parent = f.parent := rfl

@[simp] theorem get?_define (f : Frame) (name other : String) (value : Value) :
    (f.define name value).get? other = if other = name then some value else f.get? other := by
  by_cases e : other = name
  · simp [define, get?, Bindings.get?, e]
  · simp [define, get?, Bindings.get?, e, Ne.symm e]

end Frame

/-- All frames, and the number of function values made so far. -/
structure Heap where
  frames : Array Frame
  functions : Nat

namespace Heap

/-- The frame of a whole session at its start, which binds the native functions
(`Environment.new_globals_ptr`). -/
def globalFrame : Frame := ⟨none, [(Native.clock.name, .native .clock)]⟩

/-- A heap with a global frame only. -/
def initial : Heap := ⟨#[globalFrame], 0⟩

/-- The place of the global frame. -/
def globals : FrameId := 0

/-- The nearest frame from `frame` outward that binds `name`. -/
def owner? (h : Heap) (name : String) (frame : FrameId) : Option FrameId :=
  match h.frames[frame]? with
  | none => none
  | some f =>
    if f.binds name then some frame
    else
      match f.parent with
      | none => none
      | some parent => if parent < frame then h.owner? name parent else none
termination_by frame

/-- The value of `name` seen from `frame` (`Environment.get_variable`). -/
def get? (h : Heap) (frame : FrameId) (name : String) : Option Value := do
  let owner ← h.owner? name frame
  let f ← h.frames[owner]?
  f.get? name

/-- Binds `name` in `frame` itself. -/
def define (h : Heap) (frame : FrameId) (name : String) (value : Value) : Heap :=
  { h with frames := h.frames.modify frame (·.define name value) }

/-- Adds a frame, whose place is the number of frames before (`Environment.new_ptr`). -/
def push (h : Heap) (f : Frame) : Heap := { h with frames := h.frames.push f }

/-- Binds parameters to arguments one after the other. A parameter without an argument stays
unbound, and an argument without a parameter is dropped (the loop of `FunctionObject.call`). -/
def defineAll (h : Heap) (frame : FrameId) : List String → List Value → Heap
  | name :: names, value :: values => (h.define frame name value).defineAll frame names values
  | _, _ => h

@[simp] theorem size_define (h : Heap) (frame : FrameId) (name : String) (value : Value) :
    (h.define frame name value).frames.size = h.frames.size := by
  simp [define]

@[simp] theorem size_push (h : Heap) (f : Frame) : (h.push f).frames.size = h.frames.size + 1 := by
  simp [push]

end Heap
end Lox
