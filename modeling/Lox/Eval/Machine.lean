import Lox.Deep
import Lox.Fault
import Lox.Heap

/-!
# The state of a run

A machine holds the heap, how many calls are under way, how often the clock was read, and the lines
printed so far. A computation on it ends with a value, with a fault, or without an answer because its
fuel is used up; the machine that it leaves behind is the same kind of thing in all three cases.
-/
namespace Lox

/-- The state of a run (`Interpreter`). -/
structure Machine where
  heap : Heap
  depth : Nat
  ticks : Nat
  printed : Array String

/-- A machine that has done nothing yet. -/
def Machine.initial : Machine := ⟨.initial, 0, 0, #[]⟩

/-- What a run is given from outside: how deep calls may nest
(`Interpreter.with_max_call_depth`), and what the clock shows at each of its readings. -/
structure Config where
  maxCallDepth : Nat
  clock : Nat → Float

/-- The limit on nested calls unless another one is asked for. -/
def Config.defaultMaxCallDepth : Nat := 1024

/-- Why a computation ended without a value. -/
inductive Stop where
  | fault (f : Fault)
  | outOfFuel

/-- How a statement ended (`Flow`). -/
inductive Flow where
  | normal
  | returned (value : Value)

abbrev EvalM := Deep Stop Machine

namespace EvalM

/-- A result that faults turn into an end of the run. -/
def ofExcept {α : Type} : Except Fault α → EvalM α
  | .ok a => return a
  | .error f => throw (.fault f)

def fault {α : Type} (cause : Fault.Cause) (line : Nat) : EvalM α := throw (.fault ⟨cause, line⟩)

def outOfFuel {α : Type} : EvalM α := throw .outOfFuel

/-- Prints a line (`Printer.print`). -/
def print (line : String) : EvalM Unit := .of fun m => .ok () { m with printed := m.printed.push line }

/-- The value of a variable seen from `frame` (`Environment.get_variable`). -/
def readVar (frame : FrameId) (name : Token) : EvalM Value := .of fun m =>
  match m.heap.get? frame name.lexeme with
  | some v => .ok v m
  | none => .error (.fault ⟨.undefinedVariable name.lexeme, name.line⟩) m

/-- Binds a name in `frame` (`Environment.define_variable`). -/
def defineVar (frame : FrameId) (name : String) (value : Value) : EvalM Unit := .of fun m =>
  .ok () { m with heap := m.heap.define frame name value }

/-- Gives the variable seen from `frame` another value (`Environment.assign_variable`). -/
def assignVar (frame : FrameId) (name : Token) (value : Value) : EvalM Unit := .of fun m =>
  match m.heap.owner? name.lexeme frame with
  | some owner => .ok () { m with heap := m.heap.define owner name.lexeme value }
  | none => .error (.fault ⟨.undefinedVariable name.lexeme, name.line⟩) m

/-- Makes a frame inside `parent` (`Environment.new_ptr`). -/
def newFrame (parent : FrameId) : EvalM FrameId := .of fun m =>
  .ok m.heap.frames.size { m with heap := m.heap.push ⟨some parent, []⟩ }

/-- Binds parameters in `frame` to arguments (the loop of `FunctionObject.call`). -/
def bindParams (frame : FrameId) (params : List String) (args : List Value) : EvalM Unit := .of fun m =>
  .ok () { m with heap := m.heap.defineAll frame params args }

/-- Makes a function value that sees `frame` (a case of `Interpreter.evaluate_stmt_inner`). -/
def newFunction (frame : FrameId) (name : Token) (params : List Token) (body : List Stmt) : EvalM Value :=
  .of fun m => .ok (.function ⟨m.heap.functions, name.lexeme, params.map (·.lexeme), body, frame⟩)
    { m with heap := { m.heap with functions := m.heap.functions + 1 } }

/-- Reads the clock, which is outside (`NativeFunction.call`). -/
def readClock (cfg : Config) : EvalM Value := do
  let seconds ← .ask fun m => cfg.clock m.ticks
  modify fun m => { m with ticks := m.ticks + 1 }
  return .number seconds

theorem run_readClock (cfg : Config) (m : Machine) :
    (readClock cfg).run m = .ok (.number (cfg.clock m.ticks)) { m with ticks := m.ticks + 1 } := rfl

/-- How many calls are under way. -/
def callDepth : EvalM Nat := .of fun m => .ok m.depth m

/-- Starts a call on `line`, unless too many are under way (a check of `Interpreter.call`). -/
def enterCall (cfg : Config) (line : Nat) : EvalM Unit := .of fun m =>
  if cfg.maxCallDepth ≤ m.depth then .error (.fault ⟨.stackOverflow, line⟩) m
  else .ok () { m with depth := m.depth + 1 }

/-- Runs the body of a call on `line`, which counts towards the depth until it ends in any way
(`Interpreter.call`). -/
def counted {α : Type} (cfg : Config) (line : Nat) (body : EvalM α) : EvalM α := do
  enterCall cfg line
  body.leaving fun m => { m with depth := m.depth - 1 }

end EvalM
end Lox
