import CZero.Files.Path

/-!
# Files

The files that the program can see: each route leads to a file with its content, to a
folder, or nowhere. Files and folders have a time of their last change. What is written
is stamped with the time that the clock shows, and so is a folder in which something
new is made; to write a file that is there already does not change its folder.

A path is followed name by name. Every name but the last must lead to a folder; also
the last if a slash follows it.
-/

namespace CZero

/-- What a route can lead to. -/
inductive Node where
  /-- A file, and when it was changed last. -/
  | file (content : Bytes) (changed : Int)
  /-- A folder, and when something was made or removed in it last. -/
  | folder (changed : Int)
deriving DecidableEq, Repr

/-- When a file or folder was changed last. -/
def Node.changed : Node → Int
  | .file _ t => t
  | .folder t => t

/-- A file or folder that was changed last at another time. -/
def Node.withTime (t : Int) : Node → Node
  | .file content _ => .file content t
  | .folder _ => .folder t

/-- All files. -/
structure Files where
  /-- What there is, by route; the root is always there. -/
  nodes : List (Route × Node) := []
  /-- The current folder. -/
  cwd : Route := []
  /-- The current time. -/
  clock : Int := 0
deriving DecidableEq, Repr

namespace Files

/-- Why a path cannot be used. -/
inductive Reason where
  /-- It leads nowhere. -/
  | missing
  /-- It goes through a file. -/
  | notFolder
  /-- It leads to a folder. -/
  | isFolder
  /-- It has a zero byte. -/
  | invalid
  /-- It or a name in it is too long. -/
  | tooLong
deriving DecidableEq, Repr

/-- The text of a reason. -/
def Reason.text : Reason → Bytes
  | .missing => utf8 "no such file or directory"
  | .notFolder => utf8 "not a directory"
  | .isFolder => utf8 "is a directory"
  | .invalid => utf8 "invalid argument"
  | .tooLong => utf8 "file name too long"

/-- Why a file cannot be read or written. -/
inductive Error where
  /-- It cannot be opened. -/
  | opening (path : Bytes) (why : Reason)
  /-- It can be opened but has no content. -/
  | reading (path : Bytes) (why : Reason)
deriving DecidableEq, Repr

/-- The text of an error. -/
def Error.message : Error → Bytes
  | .opening path why => utf8 "open " ++ path ++ utf8 ": " ++ why.text
  | .reading path why => utf8 "read " ++ path ++ utf8 ": " ++ why.text

/-- What a route leads to. -/
def node? (fs : Files) (r : Route) : Option Node :=
  if r.isEmpty then some (.folder 0) else fs.nodes.lookup r

/-- Put a node at a route, in place of what is there. -/
def setNode (fs : Files) (r : Route) (n : Node) : Files :=
  { fs with nodes := (r, n) :: fs.nodes.filter (·.1 != r) }

/-- The files when what a route leads to has been changed at the time `t`. -/
def setTime (fs : Files) (r : Route) (t : Int) : Files :=
  if r.isEmpty then fs
  else match fs.nodes.lookup r with
    | some n => fs.setNode r (n.withTime t)
    | none => fs

/-- Make something new at a route, in the folder around it. -/
def create (fs : Files) (r : Route) (n : Node) : Files :=
  (fs.setTime r.dropLast fs.clock).setNode r n

/-- Remove what a route leads to, with everything in it, from the folder around it. -/
def remove (fs : Files) (r : Route) : Files :=
  if (fs.node? r).isNone then fs
  else
    let rest := { fs with nodes := fs.nodes.filter (!r.isPrefixOf ·.1) }
    rest.setTime r.dropLast fs.clock

/-- A path of so many bytes or more is too long. -/
def pathLimit : Nat := 4096

/-- A name of more bytes is too long. -/
def nameLimit : Nat := 255

/-- Follow one name from a route. -/
def step (fs : Files) (r : Route) (name : Bytes) : Except Reason Route :=
  match fs.node? r with
  | none => .error .missing
  | some (.file ..) => .error .notFolder
  | some (.folder _) => if nameLimit < name.length then .error .tooLong else .ok (Path.enter r name)

/-- Follow a path. The route that it gives may lead nowhere, but what is around it is
    a folder. -/
def locate (fs : Files) (path : Bytes) : Except Reason Route :=
  if path.contains 0 then .error .invalid
  else if path.isEmpty then .error .missing
  else if pathLimit ≤ path.length then .error .tooLong
  else (Path.names path).foldlM fs.step (if Path.isAbsolute path then [] else fs.cwd)

/-- What a path leads to. -/
def find (fs : Files) (path : Bytes) : Except Reason Node := do
  match fs.node? (← fs.locate path) with
  | some n => .ok n
  | none => .error .missing

/-- Whether a path leads to anything. -/
def contains (fs : Files) (path : Bytes) : Bool :=
  match fs.find path with
  | .ok _ => true
  | .error _ => false

/-- When what a path leads to was changed last. -/
def changed? (fs : Files) (path : Bytes) : Option Int :=
  match fs.find path with
  | .ok n => some n.changed
  | .error _ => none

/-- Read a file. -/
def read (fs : Files) (path : Bytes) : Except Error Bytes :=
  match fs.find path with
  | .ok (.file content _) => .ok content
  | .ok (.folder _) => .error (.reading path .isFolder)
  | .error why => .error (.opening path why)

/-- Write a file, in place of one that is there. -/
def write (fs : Files) (path content : Bytes) : Except Error Files :=
  match fs.locate path with
  | .error why => .error (.opening path why)
  | .ok r => match fs.node? r with
    | some (.folder _) => .error (.opening path .isFolder)
    | some (.file ..) => .ok (fs.setNode r (.file content fs.clock))
    | none => .ok (fs.create r (.file content fs.clock))

/-- Make sure that a file is there, if that is possible. -/
def ensure (fs : Files) (path : Bytes) : Files :=
  match fs.locate path with
  | .error _ => fs
  | .ok r => if (fs.node? r).isSome then fs else fs.create r (.file [] fs.clock)

end Files

end CZero
