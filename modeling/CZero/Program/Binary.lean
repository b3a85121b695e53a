import CZero.Program.Basic

/-!
# The binary layout of programs

A program in binary form is a sequence of big-endian numbers: a magic number, the
version and the architecture in one word, and then the pools, each with its length
in front. `write` lays a program out, `read` takes it apart again.

A program that is read has all its pools, and it is well-formed.
-/

namespace CZero.Binary

/-- The number that every program starts with. -/
def magic : Nat := 0xC0C0FFEE

/-- The architecture with addresses of 64 bits. -/
def arch64 : UInt16 := 1

/-! ## Errors -/

/-- A part of the layout. -/
inductive Part where
  | magic
  | version
  | intCount
  | ints
  | stringCount
  | strings
  | functionCount
  | functionArgs (i : Nat)
  | functionVars (i : Nat)
  | codeLength (i : Nat)
  | code (i : Nat)
  | nativeCount
  | nativeArgs (i : Nat)
  | nativeSlot (i : Nat)
deriving DecidableEq, Repr

/-- The name of a part, as it stands after the word "reading". -/
def Part.name : Part → Bytes
  | .magic => utf8 "magic number"
  | .version => utf8 "version"
  | .intCount => utf8 "int pool count"
  | .ints => utf8 "int pool"
  | .stringCount => utf8 "string pool count"
  | .strings => utf8 "string pool"
  | .functionCount => utf8 "function count"
  | .functionArgs i => utf8 "function " ++ decimal i ++ utf8 " argument count"
  | .functionVars i => utf8 "function " ++ decimal i ++ utf8 " variable count"
  | .codeLength i => utf8 "function " ++ decimal i ++ utf8 " code length"
  | .code i => utf8 "function " ++ decimal i ++ utf8 " code"
  | .nativeCount => utf8 "native count"
  | .nativeArgs i => utf8 "native " ++ decimal i ++ utf8 " argument count"
  | .nativeSlot i => utf8 "native " ++ decimal i ++ utf8 " table index"

/-- Whether a part belongs to the function pool. -/
def Part.ofFunction : Part → Bool
  | .functionArgs _ | .functionVars _ | .codeLength _ | .code _ => true
  | _ => false

/-- Why bytes are no program. -/
inductive Error where
  /-- The bytes end before a part, or, if it has `begun`, inside of it. -/
  | short (part : Part) (begun : Bool)
  /-- The magic number is another one. -/
  | magic (n : Nat)
  /-- The program is for addresses of 32 bits. -/
  | arch
  /-- Bytes are left after the last pool. -/
  | trailing (n : Nat)
  /-- The program is not well-formed. -/
  | defect (d : Program.Defect)
deriving DecidableEq, Repr

/-- The text of an error. -/
def Error.message : Error → Bytes
  | .short part begun =>
    (if part.ofFunction then utf8 "parsing functions: " else []) ++ utf8 "reading " ++ part.name
      ++ (if begun then utf8 ": unexpected EOF" else utf8 ": EOF")
  | .magic n =>
    utf8 "invalid magic number: 0x" ++ upperHex n ++ utf8 " (expected 0xC0C0FFEE)"
  | .arch => utf8 "unsupported architecture: bytecode compiled for 32-bit pointers"
  | .trailing n => decimal n ++ utf8 " trailing bytes after native pool"
  | .defect d => d.message

/-! ## Reading -/

/-- A reader takes bytes off the front of its input. -/
abbrev Reader (α : Type) := StateT Bytes (Except Error) α

/-- The number with the given bytes, the highest first. -/
def ofHighBytes (bs : Bytes) : Nat :=
  bs.foldl (fun n b => n * 256 + b.toNat) 0

/-- Take `n` bytes. -/
def take (part : Part) (n : Nat) : Reader Bytes := fun bs =>
  let front := bs.take n
  if front.length < n then .error (.short part (!front.isEmpty)) else .ok (front, bs.drop n)

/-- Take a number of two bytes. -/
def word (part : Part) : Reader UInt16 := do
  return UInt16.ofNat (ofHighBytes (← take part 2))

/-- Take `n` things, numbered from `i` on, and put them behind those in `acc`. -/
def collect {α : Type} (item : Nat → Reader α) (acc : Array α) (i : Nat) :
    Nat → Reader (Array α)
  | 0 => pure acc
  | n + 1 => do
    let a ← item i
    collect item (acc.push a) (i + 1) n

/-- The integers in bytes, four for each, put behind those in `acc`. -/
def intsOf (acc : Array Int32) : Bytes → Array Int32
  | a :: b :: c :: d :: rest =>
    intsOf (acc.push (UInt32.ofNat (ofHighBytes [a, b, c, d])).toInt32) rest
  | _ => acc

/-- Take the function with the number `i`. -/
def function (i : Nat) : Reader Function := do
  let args ← word (.functionArgs i)
  let vars ← word (.functionVars i)
  let length ← word (.codeLength i)
  let code ← take (.code i) length.toNat
  return { args, vars, body := some code.toArray }

/-- Take the native function with the number `i`. -/
def native (i : Nat) : Reader NativeRef := do
  let args ← word (.nativeArgs i)
  let slot ← word (.nativeSlot i)
  return { args, slot }

/-- Take a program. -/
def program : Reader Program := do
  let n := ofHighBytes (← take .magic 4)
  if n ≠ magic then throw (.magic n)
  let w ← word .version
  let version := w >>> 1
  let arch := w &&& 1
  if arch ≠ arch64 then throw .arch
  let intCount ← word .intCount
  let ints := intsOf #[] (← take .ints (4 * intCount.toNat))
  let stringCount ← word .stringCount
  let strings ← take .strings stringCount.toNat
  let functionCount ← word .functionCount
  if functionCount = 0 then throw (.defect .noMain)
  let functions ← collect function #[] 0 functionCount.toNat
  let nativeCount ← word .nativeCount
  let natives ← collect native #[] 0 nativeCount.toNat
  return { version, arch, ints := some ints, strings := some strings.toArray,
           functions := some functions, natives := some natives }

/-- Read a program that takes up all bytes and is well-formed. -/
def read (bs : Bytes) : Except Error Program := do
  let (p, rest) ← program bs
  if rest ≠ [] then throw (.trailing rest.length)
  match p.defect? with
  | some d => throw (.defect d)
  | none => return p

/-! ## Writing -/

/-- The `w` low bytes of `n`, the highest first. -/
def highBytes : (w n : Nat) → Bytes
  | 0, _ => []
  | w + 1, n => highBytes w (n / 256) ++ [UInt8.ofNat n]

/-- The layout of a function. -/
def writeFunction (f : Function) : Bytes :=
  highBytes 2 f.args.toNat ++ highBytes 2 f.vars.toNat ++ highBytes 2 f.code.size ++ f.code.toList

/-- The layout of a native function. -/
def writeNative (n : NativeRef) : Bytes :=
  highBytes 2 n.args.toNat ++ highBytes 2 n.slot.toNat

/-- The layout of a program. -/
def write (p : Program) : Bytes :=
  highBytes 4 magic ++ highBytes 2 (p.version.toNat * 2 + p.arch.toNat)
    ++ highBytes 2 p.intPool.size
    ++ p.intPool.toList.flatMap (fun n => highBytes 4 n.toUInt32.toNat)
    ++ highBytes 2 p.stringPool.size ++ p.stringPool.toList
    ++ highBytes 2 p.functionPool.size ++ p.functionPool.toList.flatMap writeFunction
    ++ highBytes 2 p.nativePool.size ++ p.nativePool.toList.flatMap writeNative

end CZero.Binary
