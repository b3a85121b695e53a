import CZero.Machine.Step

/-!
# Runs

A run starts in the main function and takes steps until the outermost frame
returns or a step fails. It may go on for ever, so the number of steps is bounded
by an argument, and a run that needs more gives nothing.

A fault is located in the function of the current frame, at the instruction
fetched last, unless it names an instruction already. When the outermost frame has
returned a cell that is no integer, no frame is left and the fault has no location.

A run can be observed: the calls that reach native functions are logged by
`executeLogged`.
-/

namespace CZero

/-- How a run ended. -/
inductive Outcome where
  /-- The main function returned an integer. -/
  | value (n : Int32)
  /-- There was no main function to run. -/
  | noMain
  /-- The program was at fault. -/
  | fault (f : Fault)
  /-- The host went out of bounds. -/
  | crash
deriving DecidableEq, Repr

/-- What is said when there is no main function. -/
def Outcome.noMainText : Bytes :=
  utf8 "main function not found"

namespace Machine

/-- The outcome of a run whose outermost frame returned a cell. -/
def returned : Cell → Outcome
  | .int n => .value n
  | .ptr p => .fault ⟨.expectedInt (.ptr p), none⟩

/-- The location that a fault is given in a state, unless it names one already. -/
def locationOf (s : State) (c : Fault.Cause) : Option Fault.Location :=
  if c.report.isLocated then none else some ⟨s.frame.func, s.last⟩

/-- The outcome of a run that failed in a state. Only native functions are refused
    anything, and their call has made a fault of it. -/
def stopped (s : State) : Failure → Outcome
  | .fault c => .fault ⟨c, locationOf s c⟩
  | .refused _ | .crash => .crash

/-- Take steps, at most `fuel`, until the run ends. Before each step the state is
    shown to `observe`, which keeps an account of its own. -/
def runWith {α : Type} (m : Machine) (observe : State → α → α) :
    (fuel : Nat) → α → State → Option (Outcome × State × α)
  | 0, _, _ => none
  | fuel + 1, a, s =>
    let a := observe s a
    match m.step s with
    | .ok none s => runWith m observe fuel a s
    | .ok (some c) s => some (returned c, s, a)
    | .error e s => some (stopped s e, s, a)

/-- Take steps, at most `fuel`, until the run ends. -/
def run (m : Machine) (fuel : Nat) (s : State) : Option (Outcome × State) :=
  (m.runWith (fun _ a => a) fuel () s).map fun (o, s, _) => (o, s)

/-- Run the main function, with at most `fuel` steps. -/
def execute (m : Machine) (fuel : Nat) (r : Residue) : Option (Outcome × Residue) :=
  match m.start? r with
  | none => some (.noMain, r)
  | some s => (m.run fuel s).map fun (o, s) => (o, s.residue)

/-! ## Calls of native functions -/

/-- The native call that the next step makes, if it makes one, and the state in
    which it is made. -/
def nextCall? (m : Machine) (s : State) : Option (Call × Host) :=
  match fetchInstr s with
  | .ok (.callNative i) s => match m.prepareNative i.toNat s with
    | .ok c s => some (c, s.host)
    | .error .. => none
  | _ => none

/-- What is logged of a native call. -/
structure CallRecord where
  /-- The name of the function. -/
  name : String
  /-- Its arguments. -/
  args : List Cell
  /-- Its result. -/
  result : Except Failure Cell
  /-- How much output had reached the outside world when it ended. -/
  flushed : Nat

/-- The record of a native call. -/
def Call.record (c : Call) (h : Host) : CallRecord :=
  match c.native.call c.args h with
  | .ok result h => ⟨c.native.name, c.args, .ok result, h.console.written.size⟩
  | .error e h => ⟨c.native.name, c.args, .error e, h.console.written.size⟩

/-- The log with the native call that the next step makes, the latest call first. -/
def logCall (m : Machine) (s : State) (log : List CallRecord) : List CallRecord :=
  match m.nextCall? s with
  | some (c, h) => c.record h :: log
  | none => log

/-- Run the main function, with at most `fuel` steps, and log its native calls, the
    latest first. -/
def executeLogged (m : Machine) (fuel : Nat) (log : List CallRecord) (r : Residue) :
    Option (Outcome × Residue × List CallRecord) :=
  match m.start? r with
  | none => some (.noMain, r, log)
  | some s => (m.runWith m.logCall fuel log s).map fun (o, s, log) => (o, s.residue, log)

end Machine

end CZero
