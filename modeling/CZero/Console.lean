import CZero.Failure

/-!
# The console

The terminal of a program: output through a buffer of 4096 bytes, and input line
by line. A full buffer is written out when one more byte comes, and not before;
otherwise what is buffered waits for a flush.

The outside world may refuse to take output. From the first refused write on
everything is dropped, and every flush fails for that reason; only a flush with
nothing buffered and no refusal before succeeds, since it asks for nothing.
-/

namespace CZero

/-- A terminal. -/
structure Console where
  /-- What is still to be read. -/
  input : Bytes := []
  /-- Output in the buffer. -/
  pending : Array UInt8 := #[]
  /-- Output that has reached the outside world. -/
  written : Array UInt8 := #[]
  /-- Why the outside world takes no output, if it does not. -/
  refusal : Option Bytes := none
  /-- Whether a write has been refused. -/
  failed : Bool := false
deriving DecidableEq, Repr

namespace Console

/-- The size of the output buffer. -/
def capacity : Nat := 4096

/-- Write out what is buffered. -/
def flush : Action Console Unit := fun c =>
  match c.refusal with
  | some reason =>
    if c.failed ∨ c.pending.size ≠ 0 then .error (.refused reason) { c with failed := true }
    else .ok () c
  | none => .ok () { c with written := c.written ++ c.pending, pending := #[] }

/-- Hand one byte to the buffer, which is written out first if it is full. -/
def put (c : Console) (b : UInt8) : Console :=
  if c.failed then c
  else if c.pending.size < capacity then { c with pending := c.pending.push b }
  else match flush c with
    | .ok () c => { c with pending := c.pending.push b }
    | .error _ c => c

/-- Hand bytes to the buffer. Whether the outside world takes them shows at a flush. -/
def write (bs : Bytes) (c : Console) : Console :=
  bs.foldl put c

/-- Whether there is no more input. -/
def atEnd (c : Console) : Bool :=
  c.input.isEmpty

/-- A line without its newline and without one carriage return before it. -/
def chomp (line : Bytes) : Bytes :=
  (line.dropEnd 0x0A).dropEnd 0x0D

/-- Take the next line: up to and with a newline, or else all that is left. -/
def takeLine? (c : Console) : Option (Bytes × Console) :=
  if c.input.isEmpty then none
  else
    let body := c.input.takeWhile (· != 0x0A)
    let rest := c.input.dropWhile (· != 0x0A)
    some (chomp (body ++ rest.take 1), { c with input := rest.drop 1 })

/-- Everything that was ever handed to the console and not dropped. -/
def output (c : Console) : Bytes :=
  c.written.toList ++ c.pending.toList

end Console

end CZero
