import CZero.CommandLine.Session

/-!
# The program on the command line

What a session needs of the outside world is brought in, and what it leaves is carried
out: files are looked at before the session is prepared and written after it, input is
read when the running program asks for it, and output is passed on as soon as the
console has let go of it.
-/

namespace CZero.CommandLine

/-! ## Files -/

/-- A byte string as a file name. -/
def fileName (path : Bytes) : String :=
  (Utf8.decode? path).getD ""

/-- Bring in what is at a route. -/
def bringIn (fs : Files) (r : Route) : IO Files := do
  if r.isEmpty then return fs
  let name := fileName (Path.ofRoute r)
  try
    let info ← (← IO.FS.realPath name).metadata
    let changed := info.modified.sec * 1000000000 + info.modified.nsec.toNat
    match info.type with
    | .dir => return fs.setNode r (.folder changed)
    | _ =>
      let content ← IO.FS.readBinFile name
      return fs.setNode r (.file content.data.toList changed)
  catch _ => return fs

/-- Bring in what is on the way of a path. -/
def bringInPath (fs : Files) (path : Bytes) : IO Files := do
  let mut fs := fs
  let mut r := if Path.isAbsolute path then [] else fs.cwd
  for name in Path.names path do
    r := Path.enter r name
    fs ← bringIn fs r
  return fs

/-- The paths of configuration files that the options may ask for. -/
def configPaths (fs : Files) (o : Options) : List Bytes :=
  if o.config.isEmpty then
    (Path.enclosing fs.cwd).map fun r => Path.ofRoute (r ++ [Config.fileName])
  else [o.config]

/-- Bring in all files that a session with these arguments looks at. -/
def outside (args : List Bytes) : IO Files := do
  let cwd := Path.clean [] (utf8 (← IO.currentDir).toString)
  let mut fs : Files := { cwd, clock := 0x10000000000000000 }
  for r in Path.enclosing cwd do
    fs ← bringIn fs r
  match parse args with
  | .ok (o, [path]) =>
    for p in configPaths fs o ++ [path, Loader.imagePath path] do
      fs ← bringInPath fs p
    match configure fs o with
    | .ok c => match c.logFile? with
      | some p => bringInPath fs p
      | none => return fs
    | .error _ => return fs
  | _ => return fs

/-- Carry out the files that are new or changed. -/
def carryOut (before after : Files) : IO Unit := do
  for (r, n) in after.nodes do
    if before.node? r != some n then
      match n with
      | .file content _ => IO.FS.writeBinFile (fileName (Path.ofRoute r)) ⟨content.toArray⟩
      | .folder _ => pure ()

/-! ## Input and output -/

/-- Read the rest of a line, with its newline. -/
partial def readLine (input : IO.FS.Stream) (line : Array UInt8) : IO (Array UInt8) := do
  match (← input.read 1).data.toList with
  | [] => return line
  | b :: _ =>
    let line := line.push b
    if b == 0x0A then return line else readLine input line

/-- Pass on what the console has written since `passed` bytes of it were passed on. -/
def passOn (output : IO.FS.Stream) (c : Console) (passed : Nat) : IO (Console × Nat) := do
  if c.written.size ≤ passed then return (c, passed)
  try
    output.write ⟨c.written.extract passed c.written.size⟩
    output.flush
    return (c, c.written.size)
  catch e => return ({ c with refusal := some (utf8 e.toString), failed := true }, c.written.size)

/-- Change the console of a state. -/
def withConsole (s : State) (c : Console) : State :=
  { s with host := { s.host with console := c } }

/-- Bring in a line of input if the next step asks for one. Output that it would flush
    first is passed on before. -/
def supply (m : Machine) (input output : IO.FS.Stream) (s : State) (passed : Nat) :
    IO (State × Nat) := do
  let some (call, _) := m.nextCall? s | return (s, passed)
  unless s.host.console.atEnd && (call.native.name == "readline" || call.native.name == "eof") do
    return (s, passed)
  let console := if call.native.name == "readline" then flushed s.host.console else s.host.console
  let (c, passed) ← passOn output console passed
  let line ← readLine input #[]
  return (withConsole s { c with input := line.toList }, passed)

/-- Take steps until the run ends. -/
partial def drive (m : Machine) (input output : IO.FS.Stream) (s : State) (passed : Nat) :
    IO (Outcome × State × Nat) := do
  let (s, passed) ← supply m input output s passed
  match m.step s with
  | .ok none s =>
    let (c, passed) ← passOn output s.host.console passed
    drive m input output (withConsole s c) passed
  | .ok (some c) s => return (Machine.returned c, s, passed)
  | .error e s => return (Machine.stopped s e, s, passed)

/-- A fresh name for a run: thirty-two hexadecimal digits in five groups. -/
def freshRunId : IO Bytes := do
  let digits := (← IO.getRandomBytes 16).data.toList.flatMap hexByte
  let cut (i n : Nat) : Bytes := (digits.drop i).take n
  return (utf8 "-").intercalate [cut 0 8, cut 8 4, cut 12 4, cut 16 4, cut 20 12]

/-- Run a job. -/
def Job.perform (job : Job) (input output : IO.FS.Stream) : IO Ending := do
  let r := job.machine.boot job.heapLimit {}
  let runId ← freshRunId
  match job.machine.start? r with
  | none => return job.ending runId .noMain
  | some s =>
    let (o, s, passed) ← drive job.machine input output s 0
    let (c, _) ← passOn output (flushed s.host.console) passed
    let e := job.ending runId o
    return if c.refusal.isSome then { e with stdout := [] } else e

end CZero.CommandLine

open CZero CommandLine in
/-- Run the program that the arguments name. -/
def main (args : List String) : IO UInt32 := do
  let args := args.map utf8
  let before ← outside args
  let (prepared, after) := prepare before args
  carryOut before after
  let output ← IO.getStdout
  let ending ← match prepared with
    | .error e => pure e
    | .ok job => job.perform (← IO.getStdin) output
  output.write ⟨ending.stdout.toArray⟩
  (← IO.getStderr).write ⟨ending.stderr.toArray⟩
  return UInt32.ofNat ending.status
