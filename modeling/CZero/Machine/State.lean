import CZero.Frame
import CZero.Native
import CZero.Program.Basic

/-!
# Machines and their states

A machine is a program with a table of native functions and a bound on the depth
of its calls. Its state, between two instructions, is the current frame, the
suspended callers, the heap and the console, and the address of the instruction
fetched last, which locates faults. Heap, console and that address outlive a run.
-/

namespace CZero

/-- A program made ready to run. -/
structure Machine where
  /-- The program. -/
  program : Program
  /-- The native functions, by slot; a slot can be empty. -/
  natives : Array (Option Native)
  /-- How many callers may be suspended; no bound unless positive. -/
  maxCallDepth : Int := 0

/-- What a machine keeps between two runs. -/
structure Residue where
  /-- Heap and console. -/
  host : Host
  /-- The address of the instruction fetched last. -/
  last : Nat := 0

/-- The state of a run between two instructions. -/
structure State where
  /-- The current frame. -/
  frame : Frame
  /-- The suspended callers. -/
  callers : CallStack
  /-- Heap and console. -/
  host : Host
  /-- The address of the instruction fetched last. -/
  last : Nat
deriving DecidableEq

namespace State

variable {α : Type}

/-- An action on the current frame. -/
def onFrame (x : Action Frame α) : Action State α := fun ⟨frame, callers, host, last⟩ =>
  match x frame with
  | .ok a frame => .ok a ⟨frame, callers, host, last⟩
  | .error e frame => .error e ⟨frame, callers, host, last⟩

/-- An action on heap and console. -/
def onHost (x : Action Host α) : Action State α := fun ⟨frame, callers, host, last⟩ =>
  match x host with
  | .ok a host => .ok a ⟨frame, callers, host, last⟩
  | .error e host => .error e ⟨frame, callers, host, last⟩

/-- An action on the heap. -/
def onHeap (x : Action Heap α) : Action State α :=
  onHost (Host.onHeap x)

/-- Something read off the heap. -/
def ofHeap (f : Heap → Except Failure α) : Action State α :=
  onHost (Host.ofHeap f)

/-- Put a cell on the current stack. -/
def push (c : Cell) : Action State Unit :=
  onFrame (Frame.push c)

/-- Take a cell off the current stack. -/
def pop : Action State Cell :=
  onFrame Frame.pop

/-- Take an integer off the current stack. -/
def popInt : Action State Int32 :=
  onFrame Frame.popInt

/-- Take an address off the current stack. -/
def popPtr : Action State Addr :=
  onFrame Frame.popPtr

/-- What outlives the run. -/
def residue (s : State) : Residue where
  host := s.host
  last := s.last

end State

/-- The frame of a function that has been called with `args`: the arguments are its
    first variables, and the other variables are zero. -/
def Frame.enter (index : Nat) (f : Function) (args : List Cell) : Frame where
  func := index
  code := f.code
  locals := args.toArray ++ Array.replicate (f.vars.toNat - args.length) Cell.zero

namespace Machine

/-- Where the string constants are mapped: they are the first block of the heap. -/
def poolBase : Addr := UInt64.ofNat Heap.wordSize

/-- The heap of a machine that has not run yet, with the string constants mapped. -/
def initialHeap (m : Machine) : Heap :=
  match Heap.mapReadOnly m.program.stringPool.toList Heap.empty with
  | .ok _ h => h
  | .error _ h => h

/-- A machine that has not run yet, with a limit on its heap and a console. -/
def boot (m : Machine) (limit : Int) (console : Console) : Residue where
  host := ⟨m.initialHeap.setLimit limit, console⟩

/-- The state in which a run starts, if the program has a main function. -/
def start? (m : Machine) (r : Residue) : Option State :=
  m.program.main?.map fun f =>
    { frame := Frame.enter 0 f [], callers := .empty, host := r.host, last := r.last }

end Machine

end CZero
