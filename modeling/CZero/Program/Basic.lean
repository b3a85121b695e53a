import CZero.Cell

/-!
# Programs

A program is a pool of integer constants, a pool of string constants (bytes, each
string ending at a NUL), a pool of functions, of which the first is the main
function, and a pool of native functions that it calls.

A program image may leave a pool, or the code of a function, out. What is left out
behaves as if it were empty, but is left out again when the image is written; so
the fields are optional here, and `intPool` and its like read them.
-/

namespace CZero

/-- A function of a program. -/
structure Function where
  /-- How many arguments it takes. -/
  args : UInt16 := 0
  /-- How many local variables it has, its arguments included. -/
  vars : UInt16 := 0
  /-- Its code, if it has any. -/
  body : Option (Array UInt8) := none
deriving DecidableEq, Repr, Inhabited

/-- The code of a function. -/
def Function.code (f : Function) : Array UInt8 :=
  f.body.getD #[]

/-- A native function that a program calls. -/
structure NativeRef where
  /-- How many arguments it is called with. -/
  args : UInt16 := 0
  /-- Its slot in the table of native functions. -/
  slot : UInt16 := 0
deriving DecidableEq, Repr, Inhabited

/-- A program. -/
structure Program where
  /-- The version of the format. -/
  version : UInt16 := 0
  /-- The architecture: 1 for addresses of 64 bits. -/
  arch : UInt16 := 0
  /-- The integer constants. -/
  ints : Option (Array Int32) := none
  /-- The bytes of the string constants. -/
  strings : Option (Array UInt8) := none
  /-- The functions. -/
  functions : Option (Array Function) := none
  /-- The native functions it calls. -/
  natives : Option (Array NativeRef) := none
deriving DecidableEq, Repr, Inhabited

namespace Program

/-- The integer constants; none if they were left out. -/
def intPool (p : Program) : Array Int32 :=
  p.ints.getD #[]

/-- The bytes of the string constants; none if they were left out. -/
def stringPool (p : Program) : Array UInt8 :=
  p.strings.getD #[]

/-- The functions; none if they were left out. -/
def functionPool (p : Program) : Array Function :=
  p.functions.getD #[]

/-- The native functions; none if they were left out. -/
def nativePool (p : Program) : Array NativeRef :=
  p.natives.getD #[]

/-- The main function, if there is one. -/
def main? (p : Program) : Option Function :=
  p.functionPool[0]?

/-- The string constant at an offset: up to the next NUL or the end of the pool. -/
def stringAt? (p : Program) (offset : Int) : Option Bytes :=
  match offset with
  | .ofNat k =>
    if k < p.stringPool.size then some (Bytes.before 0 (p.stringPool.toList.drop k)) else none
  | .negSucc _ => none

/-- What is wrong with a program that is not well-formed. -/
inductive Defect where
  /-- It has no functions, so no main function. -/
  | noMain
  /-- The function `index` has fewer variables than arguments. -/
  | fewVars (index : Nat) (vars args : UInt16)
deriving DecidableEq, Repr

/-- The text of a defect. -/
def Defect.message : Defect → Bytes
  | .noMain => utf8 "function pool is empty: no main function"
  | .fewVars i vars args =>
    utf8 "function " ++ decimal i ++ utf8 " declares " ++ decimal vars.toNat
      ++ utf8 " variables for " ++ decimal args.toNat ++ utf8 " arguments"

/-- The first function, from the index `i` on, with fewer variables than arguments. -/
def fewVars? (i : Nat) : List Function → Option Defect
  | [] => none
  | f :: fs => if f.vars < f.args then some (.fewVars i f.vars f.args) else fewVars? (i + 1) fs

/-- The defect of a program, if it has one. -/
def defect? (p : Program) : Option Defect :=
  if p.functionPool.isEmpty then some .noMain else fewVars? 0 p.functionPool.toList

/-- A program is well-formed if it has a main function and every function has room
    for its arguments. -/
def WellFormed (p : Program) : Prop :=
  p.functionPool ≠ #[] ∧ ∀ f ∈ p.functionPool.toList, f.args ≤ f.vars

end Program

end CZero
