import CZero.Console
import CZero.Heap.Arrays

/-!
# Native functions

A native function is called by a program and carried out by the host. It sees its
arguments, the heap and the console, which together are its `Host`, and it gives
back one cell or fails.
-/

namespace CZero

/-- What native functions work on. -/
structure Host where
  /-- The memory of the program. -/
  heap : Heap
  /-- The terminal of the program. -/
  console : Console
deriving DecidableEq, Repr

namespace Host

variable {α : Type}

/-- An action on the heap. -/
def onHeap (x : Action Heap α) : Action Host α := fun ⟨heap, console⟩ =>
  match x heap with
  | .ok a heap => .ok a ⟨heap, console⟩
  | .error e heap => .error e ⟨heap, console⟩

/-- An action on the console. -/
def onConsole (x : Action Console α) : Action Host α := fun ⟨heap, console⟩ =>
  match x console with
  | .ok a console => .ok a ⟨heap, console⟩
  | .error e console => .error e ⟨heap, console⟩

/-- Something read off the heap. -/
def ofHeap (f : Heap → Except Failure α) : Action Host α := fun s =>
  match f s.heap with
  | .ok a => .ok a s
  | .error e => .error e s

/-- Hand bytes to the console. -/
def print (bs : Bytes) : Action Host Unit := fun ⟨heap, console⟩ =>
  .ok () ⟨heap, console.write bs⟩

end Host

/-- A native function. -/
structure Native where
  /-- The name under which programs know it. -/
  name : String
  /-- What it does. -/
  call : List Cell → Action Host Cell

namespace Native

/-- A native function of `arity` arguments. -/
def offered (name : String) (arity : Nat) (body : List Cell → Action Host Cell) : Native where
  name := name
  call args :=
    if args.length = arity then body args
    else Action.fault (.nativeArity name arity args.length)

/-- A native function that has a name and nothing else. -/
def missing (name : String) : Native where
  name := name
  call _ := Action.fault (.nativeUnavailable name)

/-! ## Arguments and results -/

/-- The argument `i`, an integer. -/
def intArg (args : List Cell) (i : Nat) : Action Host Int32 := do
  let c ← Action.ofResult (argument args i)
  Action.ofResult c.asInt

/-- The argument `i`, an address. -/
def ptrArg (args : List Cell) (i : Nat) : Action Host Addr := do
  let c ← Action.ofResult (argument args i)
  Action.ofResult c.asPtr

/-- The string at an address; the null pointer is the empty string. -/
def stringAt (p : Addr) (h : Heap) : Except Failure Bytes :=
  if p = Addr.null then .ok [] else h.loadString p

/-- The argument `i`, a string. -/
def stringArg (args : List Cell) (i : Nat) : Action Host Bytes := do
  let p ← ptrArg args i
  Host.ofHeap (stringAt p)

/-- Give back the address that an action on the heap gives. -/
def returning (x : Action Heap Addr) : Action Host Cell := do
  return .ptr (← Host.onHeap x)

/-- Give back a string in a new block. -/
def returnString (s : Bytes) : Action Host Cell :=
  returning (Heap.allocString s)

/-- Fail, the contract of `name` being broken. -/
def breach {α : Type} (name : String) (b : Fault.Breach) : Action Host α :=
  Action.fault (.contract name b)

/-- The text of a truth value. -/
def boolText (n : Int32) : Bytes :=
  if n ≠ 0 then utf8 "true" else utf8 "false"

end Native

end CZero
