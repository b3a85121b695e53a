import CZero.Cell
import CZero.Text.Quoted

/-!
# Faults

A *fault* stops a program for good. Its *kind* decides the exit status, its
*cause* the message, and its *location*, when there is one, names the
instruction.

Every message is written here, in `Cause.message`; the rest of the library
speaks of causes only. Native functions that are not of the library may bring
faults of their own making, which can name any instruction (`Cause.brought`).
-/

namespace CZero

namespace Fault

/-- What went wrong, by class. -/
inductive Kind where
  | arithmetic
  | memory
  | user
  | assertion
  | opcode
  | internal
deriving DecidableEq, Repr

namespace Kind

/-- All kinds, in the order of their codes. -/
def all : List Kind :=
  [.arithmetic, .memory, .user, .assertion, .opcode, .internal]

/-- The code of a kind. -/
def code : Kind → Nat
  | .arithmetic => 0
  | .memory => 1
  | .user => 2
  | .assertion => 3
  | .opcode => 4
  | .internal => 5

/-- The kind with the code `n`, if there is one. -/
def ofCode? (n : Int) : Option Kind :=
  all.find? fun k => (k.code : Int) = n

/-- The name of a kind. -/
def name : Kind → String
  | .arithmetic => "arithmetic error"
  | .memory => "memory error"
  | .user => "user error"
  | .assertion => "assertion failed"
  | .opcode => "invalid opcode"
  | .internal => "internal error"

/-- The exit status of a process that dies of a fault of this kind: 128 and the
    number of the signal that a compiled program would have received, or 1. -/
def exitStatus : Kind → Nat
  | .arithmetic => 128 + 8
  | .memory => 128 + 11
  | .user => 1
  | .assertion | .opcode | .internal => 128 + 6

end Kind

/-- The way a native function's contract was broken. -/
inductive Breach where
  /-- A line was asked for after the last one. -/
  | noInput
  /-- A base outside 2 to 36. -/
  | base (n : Int32)
  /-- A text that is no list of integers in the base. -/
  | notIntegers (text : Bytes) (base : Nat)
  /-- A character index outside the string. -/
  | charIndex (i : Int32) (length : Nat)
  /-- A range that is no part of the string. -/
  | range (start stop : Int32) (length : Nat)
  /-- The character NUL, which no string holds. -/
  | nulChar
  /-- A count of characters outside the array. -/
  | charCount (n length : Int32)
  /-- An array whose header claims a negative length. -/
  | negativeLength (n : Int32)
  /-- A character array without NUL. -/
  | unterminated
  /-- A number that is no ASCII code. -/
  | notAscii (n : Int32)
  /-- The least integer, which has no absolute value. -/
  | leastInt
deriving DecidableEq, Repr

/-- The text of a breach. -/
def Breach.message : Breach → Bytes
  | .noInput => utf8 "no more input"
  | .base n => utf8 "base " ++ decimal n.toInt ++ utf8 " out of range [2, 36]"
  | .notIntegers s b =>
    Text.quote s ++ utf8 " is not a list of base " ++ decimal b ++ utf8 " integers"
  | .charIndex i n =>
    utf8 "index " ++ decimal i.toInt ++ utf8 " out of range [0, " ++ decimal n ++ utf8 ")"
  | .range i j n =>
    utf8 "range [" ++ decimal i.toInt ++ utf8 ", " ++ decimal j.toInt
      ++ utf8 ") invalid for length " ++ decimal n
  | .nulChar => utf8 "NUL character"
  | .charCount n k =>
    utf8 "length " ++ decimal n.toInt ++ utf8 " out of range [0, " ++ decimal k.toInt ++ utf8 "]"
  | .negativeLength n => utf8 "negative array length " ++ decimal n.toInt
  | .unterminated => utf8 "array is not NUL-terminated"
  | .notAscii n => decimal n.toInt ++ utf8 " is not an ASCII code"
  | .leastInt => utf8 "argument is int_min()"

/-- What a fault shows of itself. A kind is a bare code here, of which only six
    are in use, and a negative address means that the location is unknown. -/
structure Report where
  /-- The code of the kind. -/
  code : Int
  /-- The message. -/
  message : Bytes
  /-- The index of the function. -/
  func : Int := 0
  /-- The address of the instruction, or a negative number. -/
  pc : Int := -1
deriving DecidableEq, Repr

namespace Report

/-- Whether the report names an instruction. -/
def isLocated (r : Report) : Bool :=
  0 ≤ r.pc

/-- The kind, as far as the code is that of one. Other codes count as internal errors,
    with which they share the exit status. -/
def kind (r : Report) : Kind :=
  (Kind.ofCode? r.code).getD .internal

/-- The name of the kind. -/
def kindName (r : Report) : Bytes :=
  match Kind.ofCode? r.code with
  | some k => utf8 k.name
  | none => utf8 "fault(" ++ decimal r.code ++ utf8 ")"

/-- The exit status; an unknown kind aborts. -/
def exitStatus (r : Report) : Nat :=
  match Kind.ofCode? r.code with
  | some k => k.exitStatus
  | none => 128 + 6

/-- The text of the report. -/
def text (r : Report) : Bytes :=
  let head := r.kindName ++ utf8 ": " ++ r.message
  if r.pc < 0 then head
  else head ++ utf8 " (function " ++ decimal r.func ++ utf8 ", pc " ++ decimal r.pc ++ utf8 ")"

end Report

/-- What went wrong, in full. -/
inductive Cause where
  /-- A pointer where an integer was needed. -/
  | expectedInt (found : Cell)
  /-- An integer where a pointer was needed. -/
  | expectedPointer (found : Cell)
  /-- A cell taken from an empty operand stack. -/
  | stackUnderflow
  /-- A caller taken from an empty call stack. -/
  | callUnderflow
  /-- A local variable that the frame does not have. -/
  | localIndex (i : Int) (count : Nat)
  /-- An instruction that the code ends inside of. -/
  | truncated (pc : Int)
  /-- An instruction address outside the code. -/
  | pcOutside (pc : Int) (func : Nat) (length : Nat)
  /-- A return that leaves cells behind. -/
  | stackNotEmpty (left : Nat)
  /-- A call of a function that the program does not have. -/
  | functionIndex (i : Nat)
  /-- A call beyond the depth that is allowed. -/
  | callDepth (limit : Int)
  /-- A native call through an entry that the program does not have. -/
  | nativeIndex (i : Nat)
  /-- A native call through a slot that is empty. -/
  | nativeSlot (slot : Nat)
  /-- A native function called with the wrong number of arguments. -/
  | nativeArity (name : String) (arity given : Nat)
  /-- A native function that this machine does not offer. -/
  | nativeUnavailable (name : String)
  /-- A native function that the outside world failed. -/
  | nativeRefused (slot : Nat) (reason : Bytes)
  /-- A native function whose contract was broken. -/
  | contract (name : String) (breach : Breach)
  /-- An integer constant that the program does not have. -/
  | intIndex (i size : Nat)
  /-- A string constant that the program does not have. -/
  | stringIndex (i size : Nat)
  /-- A division by zero. -/
  | divisionByZero
  /-- The one division whose result is out of range. -/
  | divisionOverflow (dividend : Int32)
  /-- A shift to the left by an amount outside 0 to 31. -/
  | shiftLeft (amount : Int32)
  /-- A shift to the right by an amount outside 0 to 31. -/
  | shiftRight (amount : Int32)
  /-- An error that the program announced. -/
  | thrown (text : Bytes)
  /-- An assertion that failed. -/
  | asserted (text : Bytes)
  /-- A field of the null pointer. -/
  | nullField
  /-- An access through the null pointer. -/
  | nullAccess
  /-- An array operation on the null pointer. -/
  | nullArray
  /-- An access outside the heap. -/
  | address (p : Addr)
  /-- A store into protected memory. -/
  | readOnly (p : Addr)
  /-- A block of negative size. -/
  | negativeSize (n : Int)
  /-- An allocation beyond the limit. -/
  | heapLimit (limit : Int)
  /-- An array of negative length. -/
  | negativeCount (n : Int32)
  /-- An array index outside the array. -/
  | arrayIndex (i count : Int32)
  /-- A string that runs into the end of the heap. -/
  | unterminated (p : Addr)
  /-- An instruction that is reserved. -/
  | reservedOpcode (byte : UInt8) (name : String)
  /-- A byte that is no instruction. -/
  | invalidOpcode (byte : UInt8)
  /-- A fault that a native function brings with it, reported as it likes. -/
  | brought (r : Report)
deriving DecidableEq, Repr

namespace Cause

/-- The kind of a cause. -/
def kind : Cause → Kind
  | .intIndex .. | .stringIndex .. | .divisionByZero | .divisionOverflow .. | .shiftLeft ..
  | .shiftRight .. => .arithmetic
  | .nullField | .nullAccess | .nullArray | .address .. | .readOnly .. | .negativeSize ..
  | .heapLimit .. | .negativeCount .. | .arrayIndex .. | .unterminated .. => .memory
  | .nativeUnavailable .. | .nativeRefused .. | .contract .. | .thrown .. => .user
  | .asserted .. => .assertion
  | .reservedOpcode .. | .invalidOpcode .. => .opcode
  | .expectedInt .. | .expectedPointer .. | .stackUnderflow | .callUnderflow | .localIndex ..
  | .truncated .. | .pcOutside .. | .stackNotEmpty .. | .functionIndex .. | .callDepth ..
  | .nativeIndex .. | .nativeSlot .. | .nativeArity .. => .internal
  | .brought r => r.kind

/-- The text of a cause. -/
def message : Cause → Bytes
  | .expectedInt c => utf8 "expected int, found " ++ c.text
  | .expectedPointer c => utf8 "expected pointer, found " ++ c.text
  | .stackUnderflow => utf8 "operand stack underflow"
  | .callUnderflow => utf8 "call stack underflow"
  | .localIndex i n =>
    utf8 "local variable index out of range: index=" ++ decimal i ++ utf8 ", max=" ++ decimal n
  | .truncated pc => utf8 "truncated instruction at pc " ++ decimal pc
  | .pcOutside pc f n =>
    utf8 "pc " ++ decimal pc ++ utf8 " outside function " ++ decimal f ++ utf8 " (length "
      ++ decimal n ++ utf8 ")"
  | .stackNotEmpty n =>
    utf8 "operand stack not empty on return (" ++ decimal n ++ utf8 " values left)"
  | .functionIndex i => utf8 "function index " ++ decimal i ++ utf8 " out of range"
  | .callDepth n => utf8 "call depth exceeded " ++ decimal n
  | .nativeIndex i => utf8 "native index " ++ decimal i ++ utf8 " out of range"
  | .nativeSlot i => utf8 "native function " ++ decimal i ++ utf8 " not available"
  | .nativeArity name n k =>
    utf8 "native " ++ utf8 name ++ utf8 " takes " ++ decimal n ++ utf8 " arguments, called with "
      ++ decimal k
  | .nativeUnavailable name => utf8 "native function " ++ utf8 name ++ utf8 " is not available"
  | .nativeRefused i reason => utf8 "native function " ++ decimal i ++ utf8 ": " ++ reason
  | .contract name b => utf8 name ++ utf8 ": " ++ b.message
  | .intIndex i n =>
    utf8 "int pool index " ++ decimal i ++ utf8 " out of range (size " ++ decimal n ++ utf8 ")"
  | .stringIndex i n =>
    utf8 "string pool index " ++ decimal i ++ utf8 " out of range (size " ++ decimal n ++ utf8 ")"
  | .divisionByZero => utf8 "division by zero"
  | .divisionOverflow n => utf8 "division overflow: " ++ decimal n.toInt ++ utf8 " / -1"
  | .shiftLeft n => utf8 "shift left by " ++ decimal n.toInt
  | .shiftRight n => utf8 "shift right by " ++ decimal n.toInt
  | .thrown s => s
  | .asserted s => s
  | .nullField => utf8 "field access through null pointer"
  | .nullAccess => utf8 "null pointer dereference"
  | .nullArray => utf8 "null array pointer"
  | .address p => utf8 "address 0x" ++ hex p.toNat ++ utf8 " out of bounds"
  | .readOnly p => utf8 "write to read-only address 0x" ++ hex p.toNat
  | .negativeSize n => utf8 "negative allocation size " ++ decimal n
  | .heapLimit n => utf8 "heap limit exceeded (" ++ decimal n ++ utf8 " bytes)"
  | .negativeCount n => utf8 "negative array size " ++ decimal n.toInt
  | .arrayIndex i n =>
    utf8 "array index " ++ decimal i.toInt ++ utf8 " out of bounds [0, " ++ decimal n.toInt
      ++ utf8 ")"
  | .unterminated p => utf8 "unterminated string at 0x" ++ hex p.toNat
  | .reservedOpcode b name =>
    utf8 "unsupported opcode: 0x" ++ hexByte b ++ utf8 " (" ++ utf8 name ++ utf8 ")"
  | .invalidOpcode b => utf8 "invalid opcode: 0x" ++ hexByte b
  | .brought r => r.message

/-- What is reported of a cause before it is located. Only what is brought may name an
    instruction then. -/
def report : Cause → Report
  | .brought r => r
  | c => { code := c.kind.code, message := c.message }

/-- Whether the cause is a cell of the wrong tag. -/
def isTagMismatch : Cause → Bool
  | .expectedInt _ | .expectedPointer _ => true
  | _ => false

end Cause

/-- Where a fault happened: a function of the program and an address in its code. -/
structure Location where
  /-- The index of the function. -/
  func : Nat
  /-- The address of the instruction. -/
  pc : Nat
deriving DecidableEq, Repr

end Fault

/-- A fault: its cause, and its location if it was given one. -/
structure Fault where
  /-- What went wrong. -/
  cause : Fault.Cause
  /-- Where, if an instruction is to blame. -/
  location : Option Fault.Location := none
deriving DecidableEq, Repr

namespace Fault

/-- The kind of a fault. -/
def kind (f : Fault) : Kind :=
  f.cause.kind

/-- The report of a fault. -/
def report (f : Fault) : Report :=
  match f.location with
  | some l => { f.cause.report with func := l.func, pc := l.pc }
  | none => f.cause.report

/-- The text of a fault. -/
def text (f : Fault) : Bytes :=
  f.report.text

end Fault

end CZero
