import CZero.Instr
import CZero.Machine.State

/-!
# One instruction

A step fetches the instruction at the current address and carries it out. It gives
back a cell when the outermost frame returned, and nothing otherwise. A step that
fails leaves the state as far as it came; a failure of a native function that is
none of the program's own becomes a fault here.

The value that a function returns goes on the stack of its caller. Its own stack
must be empty then.
-/

namespace CZero

namespace Machine

open State

/-- Check the current address, note it, and read the instruction there. -/
def fetchInstr : Action State Instr := fun ⟨frame, callers, host, last⟩ =>
  if frame.pc < 0 ∨ frame.code.size ≤ frame.pc then
    .error (.fault (.pcOutside frame.pc frame.func frame.code.size)) ⟨frame, callers, host, last⟩
  else
    let here := frame.pc.toNat
    onFrame Instr.decode ⟨frame, callers, host, here⟩

/-- Continue at the instruction that is `offset` away from the one at `here`. -/
def branch (here : Nat) (offset : Int16) : Action State Unit :=
  onFrame (Frame.jump (here + offset.toInt))

/-- Load a cell from memory. -/
def loadCell (kind : CellKind) (p : Addr) (h : Heap) : Except Failure Cell :=
  match kind with
  | .int => return .int (← h.loadInt p)
  | .ptr => return .ptr (← h.loadPtr p)
  | .char => return .int (← h.loadChar p)

/-- The byte that a character is stored as: its seven low bits. -/
def storedChar (n : Int32) : UInt8 :=
  (n &&& 0x7f).toUInt32.toUInt8

/-- Take a value and an address off the stack and store the value there. -/
def storeCell : CellKind → Action State Unit
  | .int => do
    let n ← popInt
    let p ← popPtr
    onHeap (Heap.storeInt p n)
  | .ptr => do
    let q ← popPtr
    let p ← popPtr
    onHeap (Heap.storePtr p q)
  | .char => do
    let n ← popInt
    let p ← popPtr
    onHeap (Heap.storeChar p (storedChar n))

/-- Suspend the current frame and enter a function. -/
def enter (callee : Frame) : Action State Unit := fun ⟨frame, callers, host, last⟩ =>
  .ok () ⟨callee, callers.push frame, host, last⟩

/-- Whether `depth` suspended callers leave no room for one more. -/
def atDepthLimit (m : Machine) (depth : Nat) : Bool :=
  m.maxCallDepth > 0 && m.maxCallDepth ≤ depth

/-- Call a function. The argument pushed last is the last one. -/
def call (m : Machine) (index : Nat) : Action State Unit := do
  if m.program.functionPool.size ≤ index then Action.fault (.functionIndex index)
  if m.atDepthLimit (← get).callers.depth then Action.fault (.callDepth m.maxCallDepth)
  let f ← Action.ofResult (fetch m.program.functionPool index)
  if f.vars < f.args then
    let _ ← pop
    Action.fault (.localIndex (f.args.toNat - 1) f.vars.toNat)
  let args ← onFrame (Frame.popArgs f.args.toNat)
  enter (Frame.enter index f args)

/-- The failure of a program whose call of the native function in `slot` failed. -/
def nativeFailure (slot : Nat) : Failure → Failure
  | .fault c => .fault c
  | .refused reason => .fault (.nativeRefused slot reason)
  | .crash => .crash

/-- A call that reaches a native function. -/
structure Call where
  /-- The slot of the function. -/
  slot : Nat
  /-- The function. -/
  native : Native
  /-- The arguments, in the order in which they were pushed. -/
  args : List Cell

/-- Take the arguments of a native call off the stack and look the function up. -/
def prepareNative (m : Machine) (index : Nat) : Action State Call := do
  if m.program.nativePool.size ≤ index then Action.fault (.nativeIndex index)
  let ref ← Action.ofResult (fetch m.program.nativePool index)
  let args ← onFrame (Frame.popArgs ref.args.toNat)
  match m.natives[ref.slot.toNat]? with
  | some (some native) => return ⟨ref.slot.toNat, native, args⟩
  | _ => Action.fault (.nativeSlot ref.slot.toNat)

/-- Carry out a native call and push its result. -/
def Call.perform (c : Call) : Action State Unit := fun ⟨frame, callers, host, last⟩ =>
  match c.native.call c.args host with
  | .ok result host => push result ⟨frame, callers, host, last⟩
  | .error e host => .error (nativeFailure c.slot e) ⟨frame, callers, host, last⟩

/-- Resume the caller with a result; without a caller the run ends with it. -/
def resume (result : Cell) : Action State (Option Cell) := fun ⟨frame, callers, host, last⟩ =>
  match callers.pop? with
  | none => .ok (some result) ⟨frame, callers, host, last⟩
  | some (caller, callers) =>
    .ok none ⟨{ caller with stack := result :: caller.stack }, callers, host, last⟩

/-- Return the top cell: to the caller, or out of the run if there is none. -/
def leave : Action State (Option Cell) := do
  let result ← pop
  let left := (← get).frame.stack.length
  if left ≠ 0 then Action.fault (.stackNotEmpty left)
  resume result

/-- Carry out an instruction other than a return. -/
def perform (m : Machine) : Instr → Action State Unit
  | .nop => pure ()
  | .pop => do
    let _ ← pop
  | .dup => do
    let c ← pop
    push c
    push c
  | .swap => do
    let b ← pop
    let a ← pop
    push b
    push a
  | .pushNull => push .null
  | .pushInt n => push (.int n.toInt32)
  | .pushConst i => do
    let pool := m.program.intPool
    if pool.size ≤ i.toNat then Action.fault (.intIndex i.toNat pool.size)
    push (.int (← Action.ofResult (fetch pool i.toNat)))
  | .pushString i => do
    let size := m.program.stringPool.size
    if size ≤ i.toNat then Action.fault (.stringIndex i.toNat size)
    push (.ptr (poolBase + i.toUInt64))
  | .getLocal i => do
    push (← onFrame (Frame.getLocal i.toNat))
  | .setLocal i => do
    let c ← pop
    onFrame (Frame.setLocal i.toNat c)
  | .arith op => do
    let b ← popInt
    let a ← popInt
    push (.int (← Action.ofResult (op.apply a b)))
  | .branchEq want offset => do
    let b ← pop
    let a ← pop
    if (a == b) = want then branch (← get).last offset
  | .branchOrd order offset => do
    let b ← popInt
    let a ← popInt
    if order.holds a b then branch (← get).last offset
  | .goto offset => do
    branch (← get).last offset
  | .athrow => do
    let p ← popPtr
    let text ← ofHeap (·.loadString p)
    Action.fault (.thrown text)
  | .assert => do
    let p ← popPtr
    let holds ← popInt
    if holds = 0 then
      let text ← ofHeap (·.loadString p)
      Action.fault (.asserted text)
  | .ret => pure ()
  | .call i => m.call i.toNat
  | .callNative i => do
    let c ← m.prepareNative i.toNat
    c.perform
  | .new size => do
    push (.ptr (← onHeap (Heap.alloc size.toNat)))
  | .field offset => do
    let p ← popPtr
    if p = Addr.null then Action.fault .nullField
    push (.ptr (p + offset.toUInt64))
  | .load kind => do
    let p ← popPtr
    push (← ofHeap (loadCell kind p))
  | .store kind => storeCell kind
  | .newArray eltSize => do
    let count ← popInt
    push (.ptr (← onHeap (Heap.allocArray count eltSize.toNat)))
  | .arrayLength => do
    let p ← popPtr
    push (.int (← ofHeap (·.arrayLength p)))
  | .arrayElement => do
    let i ← popInt
    let p ← popPtr
    push (.ptr (← ofHeap (·.arrayElement p i)))

/-- Carry out an instruction. A cell is given back by the outermost return only. -/
def exec (m : Machine) (i : Instr) : Action State (Option Cell) :=
  match i with
  | .ret => leave
  | _ => do
    m.perform i
    return none

/-- Carry out the instruction at the current address. -/
def step (m : Machine) : Action State (Option Cell) := do
  let i ← fetchInstr
  m.exec i

end Machine

end CZero
