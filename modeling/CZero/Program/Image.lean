import CZero.Cbor.Content
import CZero.Program.Basic

/-!
# Program images

An image is a program as a CBOR item: a map with the keys `arch`, `ints`, `natives`,
`strings`, `version` and `functions`, in this order, and likewise for functions and
native functions. A pool that was left out is null. The same program always gives
the same bytes.

Reading is more liberal about the item, but the program must be well-formed.

What turns a program into bytes and bytes into a program is a `Codec`. Everything that
is done with images can be done with any codec; the one described here is `cbor`.
-/

namespace CZero.Image

open Cbor

/-! ## Writing -/

/-- A list as an item; null if it was left out. -/
def ofList {α : Type} (item : α → Item) : Option (Array α) → Item
  | some as => .array (as.toList.map item)
  | none => .null

/-- Bytes as an item; null if they were left out. -/
def ofBytes : Option (Array UInt8) → Item
  | some b => .bytes b.toList
  | none => .null

/-- A function as an item. -/
def ofFunction (f : Function) : Item :=
  .map [.key "args", .uint f.args.toNat, .key "code", ofBytes f.body,
    .key "vars", .uint f.vars.toNat]

/-- A native function as an item. -/
def ofNative (n : NativeRef) : Item :=
  .map [.key "args", .uint n.args.toNat, .key "index", .uint n.slot.toNat]

/-- A program as an item. -/
def ofProgram (p : Program) : Item :=
  .map [.key "arch", .uint p.arch.toNat,
    .key "ints", ofList (fun n => .ofInt n.toInt) p.ints,
    .key "natives", ofList ofNative p.natives,
    .key "strings", ofBytes p.strings,
    .key "version", .uint p.version.toNat,
    .key "functions", ofList ofFunction p.functions]

/-! ## Reading -/

/-- The 32-bit integer in an item. -/
def toInt32? (x : Item) : Option Int32 :=
  (x.number? (-0x80000000) 0x7FFFFFFF).map Int32.ofInt

/-- The function in an item. -/
def toFunction? (x : Item) : Option Function := do
  let fields ← x.fields? ["args", "vars", "code"]
  return {
    args := ← field? Item.word? "args" fields
    vars := ← field? Item.word? "vars" fields
    body := ← field? Item.bytes? "code" fields }

/-- The native function in an item. -/
def toNative? (x : Item) : Option NativeRef := do
  let fields ← x.fields? ["args", "index"]
  return {
    args := ← field? Item.word? "args" fields
    slot := ← field? Item.word? "index" fields }

/-- The program in an item. -/
def toProgram? (x : Item) : Option Program := do
  let fields ← x.fields? ["version", "arch", "ints", "strings", "functions", "natives"]
  return {
    version := ← field? Item.word? "version" fields
    arch := ← field? Item.word? "arch" fields
    ints := ← field? (Item.list? toInt32?) "ints" fields
    strings := ← field? Item.bytes? "strings" fields
    functions := ← field? (Item.list? toFunction?) "functions" fields
    natives := ← field? (Item.list? toNative?) "natives" fields }

/-- Why bytes are no image. -/
inductive Error where
  /-- They are no item that holds a program. -/
  | malformed
  /-- Their program is not well-formed. -/
  | defect (d : Program.Defect)
deriving DecidableEq, Repr

/-- The text of an error. What is wrong with an item is not said. -/
def Error.message : Error → Bytes
  | .malformed => utf8 "bc0: unmarshal image: <cbor>"
  | .defect d => utf8 "bc0: invalid image: " ++ d.message

/-! ## Codecs -/

/-- A way to write programs as bytes and to read them. -/
structure Codec where
  /-- The bytes of a program. -/
  marshal : Program → Bytes
  /-- The program in the bytes, if they have the form of one. -/
  unmarshal : Bytes → Option Program

namespace Codec

/-- The image of a program. -/
def encode (c : Codec) (p : Program) : Bytes :=
  c.marshal p

/-- The program of an image. -/
def decode (c : Codec) (bs : Bytes) : Except Error Program :=
  match c.unmarshal bs with
  | none => .error .malformed
  | some p => match p.defect? with
    | some d => .error (.defect d)
    | none => .ok p

end Codec

/-- Programs as CBOR items. -/
def cbor : Codec where
  marshal p := (ofProgram p).encode
  unmarshal bs := (Item.decode? bs).bind toProgram?

/-- The image of a program. -/
def encode (p : Program) : Bytes :=
  cbor.encode p

/-- The program of an image. -/
def decode (bs : Bytes) : Except Error Program :=
  cbor.decode bs

end CZero.Image
