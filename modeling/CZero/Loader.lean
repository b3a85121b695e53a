import CZero.Files.Basic
import CZero.Program.HexText
import CZero.Program.Image

/-!
# Loading programs

A program is loaded from its text, or from an image of it. The image of a text is the
file beside it with the extension `.bc0c`; it is used if it is not older than the text
and can be read, and it can be written when the text has been parsed. A path with that
extension is an image itself.

Texts that have been parsed and programs that have been served are kept by path, so
that a path is served the same program again whatever happens to the files.
-/

namespace CZero

/-- Why a text file gives no program. -/
inductive SourceError where
  /-- It cannot be read. -/
  | file (e : Files.Error)
  /-- Its text is no program. -/
  | text (e : Program.TextError)
deriving DecidableEq, Repr

/-- The text of an error. -/
def SourceError.message : SourceError → Bytes
  | .file (.reading path why) =>
    utf8 "reading bytecode: " ++ (Files.Error.reading path why).message
  | .file e => e.message
  | .text e => e.message

/-- The program of a text file. -/
def Files.program (fs : Files) (path : Bytes) : Except SourceError Program :=
  match fs.read path with
  | .error e => .error (.file e)
  | .ok content => match Program.ofText content with
    | .error e => .error (.text e)
    | .ok p => .ok p

/-- Programs by the paths that they were loaded from. -/
abbrev Shelf := List (Bytes × Program)

/-- Files, and the programs loaded from them so far. -/
structure Loader where
  /-- The files. -/
  files : Files
  /-- Whether images are written. -/
  writesImages : Bool := false
  /-- How images are written and read. -/
  codec : Image.Codec := Image.cbor
  /-- The programs of parsed texts. -/
  parsed : Shelf := []
  /-- The programs that have been served. -/
  served : Shelf := []

namespace Loader

/-- Why a program cannot be loaded. -/
inductive Error where
  /-- Its text file gives no program. -/
  | source (path : Bytes) (e : SourceError)
  /-- Its image cannot be read. -/
  | unreadImage (path : Bytes) (e : Files.Error)
  /-- Its image holds no program. -/
  | badImage (path : Bytes) (e : Image.Error)
  /-- Its image cannot be written. -/
  | unwrittenImage (path : Bytes) (e : Files.Error)
  /-- Another source of programs has none. -/
  | other (message : Bytes)
deriving DecidableEq, Repr

/-- The text of an error. -/
def Error.message : Error → Bytes
  | .source path e => utf8 "text: parsing " ++ path ++ utf8 ": " ++ e.message
  | .unreadImage path e => utf8 "image: reading " ++ path ++ utf8 ": " ++ e.message
  | .badImage path e => utf8 "image: decoding " ++ path ++ utf8 ": " ++ e.message
  | .unwrittenImage path e => utf8 "image: writing " ++ path ++ utf8 ": " ++ e.message
  | .other message => message

/-- An attempt to load a program. -/
abbrev Load := EStateM Error Loader

/-- The extension of images. -/
def imageExtension : Bytes := utf8 ".bc0c"

/-- The path of the image of a text. -/
def imagePath (path : Bytes) : Bytes :=
  Path.withExtension path imageExtension

/-- The program in an image file. -/
def readImage (codec : Image.Codec) (fs : Files) (path : Bytes) : Except Error Program :=
  match fs.read path with
  | .error e => .error (.unreadImage path e)
  | .ok content => match codec.decode content with
    | .error e => .error (.badImage path e)
    | .ok p => .ok p

/-- Whether both files are there and the image is not older than the source. -/
def isFresh (fs : Files) (image source : Bytes) : Bool :=
  match fs.changed? image, fs.changed? source with
  | some t, some u => u ≤ t
  | _, _ => false

/-- The program in the image of a text, if the image may be used. -/
def freshImage? (codec : Image.Codec) (fs : Files) (path : Bytes) : Option Program :=
  if isFresh fs (imagePath path) path then (readImage codec fs (imagePath path)).toOption
  else none

/-- Load a program from its text. -/
def loadText (path : Bytes) : Load Program := fun l =>
  match l.parsed.lookup path with
  | some p => .ok p l
  | none => match l.files.program path with
    | .error e => .error (.source path e) l
    | .ok p => .ok p { l with parsed := (path, p) :: l.parsed }

/-- Keep a program that is served. -/
def serve (path : Bytes) (p : Program) : Load Program := fun l =>
  .ok p { l with served := (path, p) :: l.served }

/-- Write the image of a text, if images are written. -/
def writeImage (path : Bytes) (p : Program) : Load Unit := fun l =>
  if l.writesImages then match l.files.write (imagePath path) (l.codec.encode p) with
    | .error e => .error (.unwrittenImage (imagePath path) e) l
    | .ok files => .ok () { l with files }
  else .ok () l

/-- Load a program from its image, or else from `parent`. -/
def loadWith (parent : Bytes → Load Program) (path : Bytes) : Load Program := do
  let l ← get
  match l.served.lookup path with
  | some p => return p
  | none =>
    if Path.extension path == imageExtension then
      match readImage l.codec l.files path with
      | .error e => throw e
      | .ok p => serve path p
    else match freshImage? l.codec l.files path with
      | some p => serve path p
      | none => do
        let p ← parent path
        writeImage path p
        serve path p

/-- Load a program from its image, or else from its text. -/
def load (path : Bytes) : Load Program :=
  loadWith loadText path

end Loader

end CZero
