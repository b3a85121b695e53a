import CZero.Frame
import CZero.Opcode

/-!
# Instructions

An instruction is an opcode with its operands, which follow it in the code. All
operands are read before the instruction does anything, so decoding is a stage of
its own: an instruction that the code ends inside of has no effect at all.
-/

namespace CZero

/-- The operations on two integers. -/
inductive IntOp where
  | add | sub | mul | div | rem | and | or | xor | shl | shr
deriving DecidableEq, Repr

namespace IntOp

/-- The result of an operation on `a` (pushed first) and `b`. -/
def apply (op : IntOp) (a b : Int32) : Except Failure Int32 :=
  match op with
  | .add => .ok (a + b)
  | .sub => .ok (a - b)
  | .mul => .ok (a * b)
  | .and => .ok (a &&& b)
  | .or => .ok (a ||| b)
  | .xor => .ok (a ^^^ b)
  | .div => do
    checkDivision a b
    divide (· / ·) a b
  | .rem => do
    checkDivision a b
    divide (· % ·) a b
  | .shl => if b < 0 ∨ 32 ≤ b then .error (.fault (.shiftLeft b)) else .ok (a <<< b)
  | .shr => if b < 0 ∨ 32 ≤ b then .error (.fault (.shiftRight b)) else .ok (a >>> b)
where
  /-- Refuse the operands whose quotient does not exist or is no integer of 32 bits. -/
  checkDivision (a b : Int32) : Except Failure Unit :=
    if b = 0 then .error (.fault .divisionByZero)
    else if a = -2147483648 ∧ b = -1 then .error (.fault (.divisionOverflow a))
    else .ok ()
  /-- The quotient or the remainder of `a` by `b`; a division by zero is a crash. -/
  divide (f : Int32 → Int32 → Int32) (a b : Int32) : Except Failure Int32 :=
    if b = 0 then .error .crash else .ok (f a b)

end IntOp

/-- The orders of two integers that a branch can ask for. -/
inductive IntOrder where
  | lt | ge | gt | le
deriving DecidableEq, Repr

/-- Whether `a` (pushed first) and `b` are in the order. -/
def IntOrder.holds (o : IntOrder) (a b : Int32) : Bool :=
  match o with
  | .lt => a < b
  | .ge => b ≤ a
  | .gt => b < a
  | .le => a ≤ b

/-- The kinds of cells in memory. -/
inductive CellKind where
  | int | ptr | char
deriving DecidableEq, Repr

/-- An instruction with its operands. -/
inductive Instr where
  /-- Nothing. -/
  | nop
  /-- Drop a cell. -/
  | pop
  /-- Push the top cell once more. -/
  | dup
  /-- Exchange the two top cells. -/
  | swap
  /-- Push the null pointer. -/
  | pushNull
  /-- Push a small integer. -/
  | pushInt (n : Int8)
  /-- Push an integer constant. -/
  | pushConst (index : UInt16)
  /-- Push the address of a string constant. -/
  | pushString (offset : UInt16)
  /-- Push a local variable. -/
  | getLocal (index : UInt8)
  /-- Set a local variable. -/
  | setLocal (index : UInt8)
  /-- Operate on two integers. -/
  | arith (op : IntOp)
  /-- Branch if two cells are equal, or if they are not. -/
  | branchEq (want : Bool) (offset : Int16)
  /-- Branch if two integers are in an order. -/
  | branchOrd (order : IntOrder) (offset : Int16)
  /-- Branch. -/
  | goto (offset : Int16)
  /-- Stop with an error of the program. -/
  | athrow
  /-- Stop with an error of the program unless a condition holds. -/
  | assert
  /-- Return a value to the caller. -/
  | ret
  /-- Call a function. -/
  | call (index : UInt16)
  /-- Call a native function. -/
  | callNative (index : UInt16)
  /-- Allocate a block. -/
  | new (size : UInt8)
  /-- Move an address to a field. -/
  | field (offset : UInt8)
  /-- Load a cell from memory. -/
  | load (kind : CellKind)
  /-- Store a cell in memory. -/
  | store (kind : CellKind)
  /-- Allocate an array. -/
  | newArray (eltSize : UInt8)
  /-- Push the length of an array. -/
  | arrayLength
  /-- Push the address of an element of an array. -/
  | arrayElement
deriving DecidableEq, Repr

namespace Instr

open CZero.Frame

/-- Read the operands of an opcode. A reserved opcode is a fault. -/
def readOperands : Opcode → Action Frame Instr
  | .nop => return .nop
  | .pop => return .pop
  | .dup => return .dup
  | .swap => return .swap
  | .aconstNull => return .pushNull
  | .bipush => return .pushInt (← readI8)
  | .ildc => return .pushConst (← readU16)
  | .aldc => return .pushString (← readU16)
  | .vload => return .getLocal (← readU8)
  | .vstore => return .setLocal (← readU8)
  | .iadd => return .arith .add
  | .isub => return .arith .sub
  | .imul => return .arith .mul
  | .idiv => return .arith .div
  | .irem => return .arith .rem
  | .iand => return .arith .and
  | .ior => return .arith .or
  | .ixor => return .arith .xor
  | .ishl => return .arith .shl
  | .ishr => return .arith .shr
  | .ifCmpeq => return .branchEq true (← readI16)
  | .ifCmpne => return .branchEq false (← readI16)
  | .ifIcmplt => return .branchOrd .lt (← readI16)
  | .ifIcmpge => return .branchOrd .ge (← readI16)
  | .ifIcmpgt => return .branchOrd .gt (← readI16)
  | .ifIcmple => return .branchOrd .le (← readI16)
  | .goto => return .goto (← readI16)
  | .athrow => return .athrow
  | .assert => return .assert
  | .ret => return .ret
  | .invokestatic => return .call (← readU16)
  | .invokenative => return .callNative (← readU16)
  | .new => return .new (← readU8)
  | .aaddf => return .field (← readU8)
  | .imload => return .load .int
  | .amload => return .load .ptr
  | .cmload => return .load .char
  | .imstore => return .store .int
  | .amstore => return .store .ptr
  | .cmstore => return .store .char
  | .newarray => return .newArray (← readU8)
  | .arraylength => return .arrayLength
  | .aadds => return .arrayElement
  | op@.addrofStatic | op@.addrofNative | op@.invokedynamic | op@.checktag | op@.hastag
  | op@.addtag => Action.fault (.reservedOpcode op.byte op.mnemonic)

/-- Read the next instruction and move past it. -/
def decode : Action Frame Instr := do
  let b ← nextByte
  match Opcode.ofByte? b with
  | some op => readOperands op
  | none => Action.fault (.invalidOpcode b)

end Instr

end CZero
