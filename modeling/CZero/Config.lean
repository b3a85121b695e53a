import CZero.Files.Basic
import CZero.Files.Parent
import CZero.Toml.Document

/-!
# Configuration

The machine is configured by a file `c0vm.toml` with three tables: `vm` with the bounds
on call depth and heap, `log` with verbosity and file of the log, and `image` with the
choice to write images. Names may be written in either case. Settings that are left
out are zero, empty or false, and a bound of zero is none.

A file is refused if it is no TOML document, if a setting has a value of the wrong
kind, if it has keys that are not settings, and if a bound is negative, in this order.
Without a path, the file is looked for in the current folder and in those around it.
-/

namespace CZero

/-- A configuration. -/
structure Config where
  /-- How many callers may be suspended; no bound if zero. -/
  maxCallDepth : Int := 0
  /-- How many bytes may be allocated; no bound if zero. -/
  heapLimit : Int := 0
  /-- How much is logged. -/
  verbosity : Int := 0
  /-- Where to log; empty if to standard error. -/
  logFile : Bytes := []
  /-- Whether images are written. -/
  writeImages : Bool := false
  /-- The file that it was read from, if it was. -/
  path : Bytes := []
deriving DecidableEq, Repr

namespace Config

/-- The name of a configuration file. -/
def fileName : Bytes := utf8 "c0vm.toml"

/-- The file to log to, unless it is standard error. -/
def logFile? (c : Config) : Option Bytes :=
  if c.logFile.isEmpty then none else some c.logFile

/-! ## Settings -/

/-- The settings. -/
inductive Setting where
  /-- The bound on suspended callers. -/
  | maxCallDepth
  /-- The bound on allocated bytes. -/
  | heapLimit
  /-- How much is logged. -/
  | verbosity
  /-- Where to log. -/
  | logFile
  /-- Whether images are written. -/
  | writeImages
deriving DecidableEq, Repr

namespace Setting

/-- All settings. -/
def all : List Setting :=
  [.maxCallDepth, .heapLimit, .verbosity, .logFile, .writeImages]

/-- The table that a setting belongs to. -/
def table : Setting → String
  | .maxCallDepth | .heapLimit => "vm"
  | .verbosity | .logFile => "log"
  | .writeImages => "image"

/-- The name of a setting in its table. -/
def name : Setting → String
  | .maxCallDepth => "max-call-depth"
  | .heapLimit => "heap-limit"
  | .verbosity => "verbosity"
  | .logFile => "file"
  | .writeImages => "write-cache"

/-- A setting in messages. -/
def text (s : Setting) : Bytes :=
  utf8 s.table ++ utf8 "." ++ utf8 s.name

end Setting

/-- The small letter that a character is taken for in a name: two letters beyond
    ASCII, the long s and the kelvin sign, differ from `s` and `k` by case alone. -/
def foldChar (c : Char) : Char :=
  if c == '\u017f' then 's' else if c == '\u212a' then 'k' else c.toLower

/-- Whether two names differ by case alone. -/
def sameName (a b : String) : Bool :=
  a.toList.map foldChar == b.toList.map foldChar

/-- Set a setting, if the value is of its kind. -/
def set? (c : Config) : Setting → Toml.Value → Option Config
  | .maxCallDepth, .scalar (.integer n) => some { c with maxCallDepth := n }
  | .heapLimit, .scalar (.integer n) => some { c with heapLimit := n }
  | .verbosity, .scalar (.integer n) => some { c with verbosity := n }
  | .logFile, .scalar (.string s) => some { c with logFile := utf8 s }
  | .writeImages, .scalar (.boolean b) => some { c with writeImages := b }
  | _, _ => none

/-! ## Reading documents -/

/-- What has been read of a document: a configuration and the keys of its settings. -/
structure Reading where
  /-- The configuration so far. -/
  config : Config := {}
  /-- The keys that have been understood. -/
  known : List Toml.Key := []

/-- Read the settings of the table `table`, which is written `key`. -/
def readTable (table key : String) (r : Reading) : Toml.Table → Option Reading
  | [] => some r
  | (k, v) :: rest =>
    match Setting.all.find? fun s => s.table == table && sameName s.name k with
    | none => readTable table key r rest
    | some s => match r.config.set? s v with
      | none => none
      | some c => readTable table key ⟨c, [key, k] :: r.known⟩ rest

/-- Read the tables of a document. -/
def readRoot (r : Reading) : Toml.Table → Option Reading
  | [] => some r
  | (k, v) :: rest =>
    match ["vm", "log", "image"].find? (sameName · k) with
    | none => readRoot r rest
    | some table => match v with
      | .table t => match readTable table k { r with known := [k] :: r.known } t with
        | none => none
        | some r => readRoot r rest
      | _ => none

/-- Why a file is refused. -/
inductive Error where
  /-- It cannot be read. -/
  | unreadable (path : Bytes) (e : Files.Error)
  /-- It is no document, or a value is of the wrong kind. -/
  | malformed (path : Bytes)
  /-- It has keys that are not settings. -/
  | unknownKeys (path : Bytes) (keys : List Toml.Key)
  /-- A bound is negative. -/
  | negative (path : Bytes) (s : Setting) (n : Int)
deriving DecidableEq, Repr

/-- The text of an error. What is wrong with a document is not said. -/
def Error.message : Error → Bytes
  | .unreadable path e => utf8 "cannot read " ++ path ++ utf8 ": " ++ e.message
  | .malformed path => utf8 "parse error in " ++ path ++ utf8 ": <toml>"
  | .unknownKeys path keys =>
    utf8 "unknown keys in " ++ path ++ utf8 ": "
      ++ (utf8 ", ").intercalate (keys.map Toml.Key.text)
  | .negative path s n =>
    utf8 "invalid " ++ path ++ utf8 ": " ++ s.text ++ utf8 " must not be negative, got "
      ++ decimal n

/-- A configuration whose bounds are not negative. -/
def check (path : Bytes) (c : Config) : Except Error Config :=
  if c.maxCallDepth < 0 then .error (.negative path .maxCallDepth c.maxCallDepth)
  else if c.heapLimit < 0 then .error (.negative path .heapLimit c.heapLimit)
  else .ok { c with path }

/-- A way to read a document: the configuration that it sets, and those of its keys that
    are no settings, or nothing if that fails. -/
abbrev Decoder := Bytes → Option (Config × List Toml.Key)

/-- Documents are read as TOML. -/
def toml : Decoder := fun content =>
  match Toml.Document.parse? content with
  | none => none
  | some doc => match readRoot {} doc.root with
    | none => none
    | some r => some (r.config, doc.keys.filter (!r.known.contains ·))

/-- The configuration in the content of a file. -/
def parse (path content : Bytes) (decode : Decoder := toml) : Except Error Config :=
  match decode content with
  | none => .error (.malformed path)
  | some (c, []) => check path c
  | some (_, keys) => .error (.unknownKeys path keys)

/-- Load a configuration file. -/
def load (fs : Files) (path : Bytes) (decode : Decoder := toml) : Except Error Config :=
  match fs.read path with
  | .error e => .error (.unreadable path e)
  | .ok content => parse path content decode

/-- Load the configuration file of a folder or, if it has none, the nearest one of those
    around it, if there is one. -/
def loadFrom (fs : Files) (folder : Bytes) (decode : Decoder := toml) :
    Except Error (Option Config) :=
  let path := Path.join folder fileName
  if fs.contains path then (load fs path decode).map some
  else if Path.parent folder = folder then .ok none
  else loadFrom fs (Path.parent folder) decode
termination_by Path.rank folder
decreasing_by exact Path.rank_parent_lt ‹_›

/-- Load the configuration file that is nearest to the folder `start`, if there is one. -/
def loadNearest (fs : Files) (start : Bytes) (decode : Decoder := toml) :
    Except Error (Option Config) :=
  loadFrom fs (Path.absolute fs.cwd start) decode

end Config

end CZero
