import CZero.Failure

/-!
# Frames

A frame is the activation of one function: its operand stack, its local
variables, its code and the address of the next instruction. The stack is a list
with its top at the head.

The operations are actions: a read of the wrong tag has removed the cell all the
same. Addresses and indices are integers, since a branch may lead anywhere; the
operations guard against the end of the code and of the variables only, and a
negative address or index is a crash. (A machine has checked the address before.)

A `CallStack` holds the suspended frames, the most recent first. It carries its
depth.
-/

namespace CZero

/-- The activation of a function. -/
structure Frame where
  /-- The index of the function in its program. -/
  func : Nat
  /-- The code of the function. -/
  code : Array UInt8
  /-- The address of the next byte of code. -/
  pc : Int := 0
  /-- The operand stack, top first. -/
  stack : List Cell := []
  /-- The local variables. -/
  locals : Array Cell := #[]
deriving DecidableEq, Repr

namespace Frame

open CZero.Action

/-- Put a cell on the stack. -/
def push (c : Cell) : Action Frame Unit := fun f =>
  .ok () { f with stack := c :: f.stack }

/-- Take the top cell off the stack. -/
def pop : Action Frame Cell := fun f =>
  match f.stack with
  | [] => .error (.fault .stackUnderflow) f
  | c :: rest => .ok c { f with stack := rest }

/-- The top cell, left where it is. -/
def peek : Action Frame Cell := fun f =>
  match f.stack with
  | [] => .error (.fault .stackUnderflow) f
  | c :: _ => .ok c f

/-- Take an integer off the stack. -/
def popInt : Action Frame Int32 := do
  ofResult (← pop).asInt

/-- Take an address off the stack. -/
def popPtr : Action Frame Addr := do
  ofResult (← pop).asPtr

/-- Take `n` cells off the stack and put them before `acc`, the last pushed at the end. -/
def popList (acc : List Cell) : Nat → Action Frame (List Cell)
  | 0 => pure acc
  | n + 1 => do
    let c ← pop
    popList (c :: acc) n

/-- Take `n` cells off the stack, in the order in which they were pushed. -/
def popArgs (n : Nat) : Action Frame (List Cell) :=
  popList [] n

/-- The local variable `i`. -/
def getLocal (i : Int) : Action Frame Cell := fun f =>
  if i ≥ f.locals.size then .error (.fault (.localIndex i f.locals.size)) f
  else match i with
    | .ofNat k => ofResult (fetch f.locals k) f
    | .negSucc _ => .error .crash f

/-- Set the local variable `i`. -/
def setLocal (i : Int) (c : Cell) : Action Frame Unit := fun f =>
  if i ≥ f.locals.size then .error (.fault (.localIndex i f.locals.size)) f
  else match i with
    | .ofNat k => .ok () { f with locals := f.locals.setIfInBounds k c }
    | .negSucc _ => .error .crash f

/-- The byte of code at the address `pc`. -/
def codeAt (f : Frame) (pc : Int) : Except Failure UInt8 :=
  match pc with
  | .ofNat k => fetch f.code k
  | .negSucc _ => .error .crash

/-- Check that `n` more bytes of code follow. -/
def need (n : Nat) : Action Frame Unit := fun f =>
  if f.pc + n > f.code.size then .error (.fault (.truncated f.pc)) f else .ok () f

/-- Read the next byte of code and move past it, the bounds being known. -/
def nextByte : Action Frame UInt8 := fun f =>
  match f.codeAt f.pc with
  | .ok b => .ok b { f with pc := f.pc + 1 }
  | .error e => .error e f

/-- Read an operand of one byte. -/
def readU8 : Action Frame UInt8 := do
  need 1
  nextByte

/-- Read a signed operand of one byte. -/
def readI8 : Action Frame Int8 := do
  return (← readU8).toInt8

/-- The number whose two bytes are `hi` and `lo`. -/
def word (hi lo : UInt8) : UInt16 :=
  hi.toUInt16 <<< 8 ||| lo.toUInt16

/-- Read an operand of two bytes, the high byte first. -/
def readU16 : Action Frame UInt16 := do
  need 2
  let hi ← nextByte
  let lo ← nextByte
  return word hi lo

/-- Read a signed operand of two bytes, the high byte first. -/
def readI16 : Action Frame Int16 := do
  return (← readU16).toInt16

/-- Continue at the address `pc`. -/
def jump (pc : Int) : Action Frame Unit := fun f =>
  .ok () { f with pc := pc }

end Frame

/-- The suspended frames, the most recent first, and their number. -/
structure CallStack where
  /-- The frames. -/
  frames : List Frame := []
  /-- How many there are. -/
  depth : Nat := 0
  /-- The depth is counted rightly. -/
  depth_eq : depth = frames.length := by rfl
deriving DecidableEq

namespace CallStack

/-- No frame is suspended. -/
def empty : CallStack := {}

/-- Suspend a frame. -/
def push (f : Frame) (cs : CallStack) : CallStack where
  frames := f :: cs.frames
  depth := cs.depth + 1
  depth_eq := by rw [cs.depth_eq, List.length_cons]

/-- Resume the most recent frame, if there is one. -/
def pop? (cs : CallStack) : Option (Frame × CallStack) :=
  match h : cs.frames with
  | [] => none
  | f :: rest => some (f, ⟨rest, cs.depth - 1, by simp [cs.depth_eq, h]⟩)

/-- Resume the most recent frame; it is a fault if there is none. -/
def pop : Action CallStack Frame := fun cs =>
  match cs.pop? with
  | some (f, rest) => .ok f rest
  | none => .error (.fault .callUnderflow) cs

/-- Whether no frame is suspended. -/
def isEmpty (cs : CallStack) : Bool :=
  cs.frames.isEmpty

end CallStack

end CZero
