import CZero.CommandLine.Options
import CZero.Config
import CZero.Library.Table
import CZero.Loader
import CZero.Machine.Run

/-!
# A session

The program is used to run one other program: options and configuration are read, the
program is loaded and run with the configured bounds, its output is flushed, and the
exit status tells how it ended: with the low eight bits of the result, or by the kind of
fault. What is wrong is said on standard error.
-/

namespace CZero.CommandLine

/-- How a session ends. -/
structure Ending where
  /-- The exit status. -/
  status : Nat
  /-- What is added to standard output. -/
  stdout : Bytes := []
  /-- What is written to standard error. -/
  stderr : Bytes := []
deriving DecidableEq, Repr

/-- The ending of a session with wrong arguments. -/
def misuse (message : Bytes) : Ending where
  status := 2
  stderr := message ++ usage

/-- The ending of a session in which nothing was run. -/
def failed (message : Bytes) : Ending where
  status := 1
  stderr := utf8 "c0vm: " ++ message ++ utf8 "\n"

/-- A program to be run. -/
structure Job where
  /-- The machine. -/
  machine : Machine
  /-- The limit of its heap. -/
  heapLimit : Int
  /-- Whether to print the result. -/
  printResult : Bool

/-- The configuration that the options ask for. -/
def configure (fs : Files) (o : Options) : Except Config.Error Config :=
  if o.config.isEmpty then
    (Config.loadNearest fs [Path.dot]).map fun c => c.getD {}
  else Config.load fs o.config

/-- From this verbosity on downwards nothing is logged. -/
def silence : Int := -4

/-- How much is logged: what the configuration and the options ask for together, in 64
    bits. -/
def logLevel (c : Config) (o : Options) : Int :=
  Int.bmod (c.verbosity + o.verbosity) 0x10000000000000000

/-- The files when the log is open. A log in which nothing is written is not opened. -/
def openLog (fs : Files) (c : Config) (o : Options) : Files :=
  match c.logFile? with
  | some path => if logLevel c o ≤ silence then fs else fs.ensure path
  | none => fs

/-- The program to be run, or the ending if there is none, and the files as they are
    left. -/
def prepare (fs : Files) (args : List Bytes) : Except Ending Job × Files :=
  match parse args with
  | .error e => (.error (misuse e.message), fs)
  | .ok (o, [path]) => match configure fs o with
    | .error e => (.error (failed e.message), fs)
    | .ok c =>
      let loader : Loader :=
        { files := openLog fs c o, writesImages := o.writeImage || c.writeImages }
      match Loader.load path loader with
      | .error e l => (.error (failed e.message), l.files)
      | .ok program l =>
        let machine : Machine :=
          { program, natives := Library.slots, maxCallDepth := c.maxCallDepth }
        (.ok ⟨machine, c.heapLimit, o.printResult⟩, l.files)
  | .ok _ => (.error (misuse []), fs)

/-- The ending of a session whose run failed. -/
def aborted (status : Nat) (message runId : Bytes) : Ending where
  status
  stderr := utf8 "c0vm: " ++ message ++ utf8 " [run " ++ runId ++ utf8 "]\n"

/-- The ending of a session after a run. -/
def Job.ending (job : Job) (runId : Bytes) : Outcome → Ending
  | .value n => {
      status := n.toUInt32.toUInt8.toNat
      stdout := if job.printResult then decimal n.toInt ++ utf8 "\n" else [] }
  | .fault f => aborted f.kind.exitStatus f.text runId
  | .noMain => aborted 1 Outcome.noMainText runId
  | .crash => aborted 2 [] runId

/-- What a session leaves. -/
structure Result where
  /-- The exit status. -/
  status : Nat
  /-- What reached standard output. -/
  stdout : Bytes
  /-- What reached standard error. -/
  stderr : Bytes
  /-- The files. -/
  files : Files

/-- The console after the last flush, which may fail. -/
def flushed (c : Console) : Console :=
  match c.flush with
  | .ok () c => c
  | .error _ c => c

/-- What reached standard output, with `bs` written to it directly at the end. -/
def reached (c : Console) (bs : Bytes) : Bytes :=
  c.written.toList ++ (if c.refusal.isSome then [] else bs)

/-- A session: the arguments are followed, and a program is run for at most `fuel`
    steps. -/
def run (fs : Files) (args : List Bytes) (console : Console) (runId : Bytes) (fuel : Nat) :
    Option Result :=
  match prepare fs args with
  | (.error e, fs) => some ⟨e.status, reached console e.stdout, e.stderr, fs⟩
  | (.ok job, fs) =>
    (job.machine.execute fuel (job.machine.boot job.heapLimit console)).map fun (o, r) =>
      let e := job.ending runId o
      ⟨e.status, reached (flushed r.host.console) e.stdout, e.stderr, fs⟩

end CZero.CommandLine
