import CZero.Fault

/-!
# Failures

An operation may fail because the program is at fault, but also because the
outside world refused its output, or because the host itself reached outside one
of its arrays, divided by zero or asked for an array that cannot be made, its length
being negative or too large. The last is no fault of the program and must never
happen. It is kept apart as
`Failure.crash`, so that one can state, and prove, that a machine never crashes:
every access to an array whose bounds are not evident goes through `fetch` and its
like.

Operations on a state `σ` that may fail are written in `Action σ`. A failed
action keeps what it did to the state before.
-/

namespace CZero

/-- Why an operation did not come to its end. -/
inductive Failure where
  /-- The program is at fault. -/
  | fault (cause : Fault.Cause)
  /-- The outside world refused, for a reason of its own. -/
  | refused (reason : Bytes)
  /-- The host reached outside one of its arrays, divided by zero or asked for an
      array that cannot be made. -/
  | crash
deriving DecidableEq, Repr

instance : Coe Fault.Cause Failure := ⟨.fault⟩

/-- The text of a failure outside a machine, where no instruction is to blame. -/
def Failure.text : Failure → Bytes
  | .fault c => (Fault.mk c none).text
  | .refused r => r
  | .crash => utf8 "host access out of bounds"

/-- A computation on a state `σ` that may fail, keeping the state it reached. -/
abbrev Action (σ α : Type) := EStateM Failure σ α

namespace Action

variable {σ τ α : Type}

/-- A result that does not depend on the state. -/
def ofResult (x : Except Failure α) : Action σ α := fun s =>
  match x with
  | .ok a => .ok a s
  | .error e => .error e s

/-- A failure by a fault. -/
def fault (c : Fault.Cause) : Action σ α := fun s =>
  .error (.fault c) s

end Action

/-- The element `i` of an array; out of bounds it is a crash. -/
def fetch {α : Type} (xs : Array α) (i : Nat) : Except Failure α :=
  match xs[i]? with
  | some x => .ok x
  | none => .error .crash

/-- The argument `i` of a list of arguments; out of bounds it is a crash. -/
def argument (args : List Cell) (i : Nat) : Except Failure Cell :=
  match args[i]? with
  | some x => .ok x
  | none => .error .crash

namespace Cell

/-- The integer in a cell; a pointer is a fault. -/
def asInt : Cell → Except Failure Int32
  | .int n => .ok n
  | .ptr p => .error (.fault (.expectedInt (.ptr p)))

/-- The address in a cell; an integer is a fault. -/
def asPtr : Cell → Except Failure Addr
  | .ptr p => .ok p
  | .int n => .error (.fault (.expectedPointer (.int n)))

end Cell

end CZero
