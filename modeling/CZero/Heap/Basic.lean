import CZero.Failure

/-!
# The heap

The memory of a machine is one arena of bytes. Blocks are cut off its end, zeroed
and aligned to 8 bytes; they are never freed. The first word is reserved, so that
no block has the address 0. A program may be given a limit on the bytes it asks
for (`used`); the padding of its blocks is not counted.

No host can make a block of more than `maxBlock` bytes. To be asked for one is a
crash, unless the limit refuses it. Its check is in 64-bit arithmetic, and for such a
request it may be passed because the sum wraps around. Below that size sums are exact:
what was asked for is in the arena, which is far from having 2 ^ 63 bytes.

One range of the arena can be protected against stores. It holds the string
constants of a program.

Cells in memory have no tags: an integer takes 4 bytes and an address 8, the low
byte first, and a character one. A load or store at an address `p` of a cell of
`n` bytes needs `[p, p + n)` to lie in the arena behind the reserved word.
-/

namespace CZero

/-- An arena of bytes, with its bookkeeping. -/
structure Heap where
  /-- The bytes of the arena, the reserved word included. -/
  mem : Array UInt8
  /-- How many bytes the program has asked for. -/
  used : Nat := 0
  /-- How many bytes it may ask for; no limit unless positive. -/
  limit : Int := 0
  /-- The index of the first protected byte. -/
  guardLo : Nat := 0
  /-- The index of the first byte behind the protected range. -/
  guardHi : Nat := 0
deriving DecidableEq, Repr

namespace Heap

/-- The alignment of blocks, and the size of the reserved word. -/
def wordSize : Nat := 8

/-- The size of a character in memory. -/
def charSize : Nat := 1

/-- The size of an integer in memory. -/
def intSize : Nat := 4

/-- The size of an address in memory. -/
def ptrSize : Nat := 8

/-- A heap without blocks. -/
def empty : Heap where
  mem := Array.replicate wordSize 0

/-- The size of the arena. -/
def size (h : Heap) : Nat :=
  h.mem.size

/-! ## Numbers as bytes -/

/-- The `w` low bytes of `n`, the lowest first. -/
def lowBytes : (w n : Nat) → Bytes
  | 0, _ => []
  | w + 1, n => UInt8.ofNat n :: lowBytes w (n / 256)

/-- The number with the given bytes, the lowest first. -/
def ofLowBytes : Bytes → Nat
  | [] => 0
  | b :: bs => b.toNat + 256 * ofLowBytes bs

/-- The bytes of an integer cell. -/
def intBytes (n : Int32) : Bytes :=
  lowBytes intSize n.toUInt32.toNat

/-- The integer in the bytes of a cell. -/
def intOfBytes (bs : Bytes) : Int32 :=
  (UInt32.ofNat (ofLowBytes bs)).toInt32

/-- The bytes of an address cell. -/
def ptrBytes (p : Addr) : Bytes :=
  lowBytes ptrSize p.toNat

/-- The address in the bytes of a cell. -/
def ptrOfBytes (bs : Bytes) : Addr :=
  UInt64.ofNat (ofLowBytes bs)

/-- The integer that a character in memory is read as: its byte is a signed one. -/
def charOfByte (b : UInt8) : Int32 :=
  b.toInt8.toInt32

/-! ## Blocks -/

/-- The space that a block of `n` bytes takes: whole words, and at least one. -/
def padded (n : Nat) : Nat :=
  max wordSize ((n + 7) / 8 * 8)

/-- The arena with a zeroed block of `n` bytes at its end. -/
def extend (h : Heap) (n : Nat) : Heap :=
  { h with mem := h.mem ++ Array.replicate (padded n) 0 }

/-- The address of the byte of the arena with the index `i`. -/
def addrOf (i : Nat) : Addr :=
  UInt64.ofNat i

/-- Cut off a block of `n` bytes, whatever the limit says, and give the index of its
    first byte. -/
def grow (n : Nat) : Action Heap Nat := fun h =>
  .ok h.size (h.extend n)

/-- Cap what the program may ask for. -/
def setLimit (n : Int) (h : Heap) : Heap :=
  { h with limit := n }

/-- Whether a count of `n` bytes passes the limit. -/
def passesLimit (h : Heap) (n : Int) : Bool :=
  h.limit > 0 && n > h.limit

/-- Whether a request for `n` more bytes would pass the limit. -/
def overLimit (h : Heap) (n : Nat) : Bool :=
  h.passesLimit (h.used + n)

/-- Cut off a block of `n` bytes that the program asked for. -/
def reserve (n : Nat) : Action Heap Nat := fun h =>
  if h.overLimit n then .error (.fault (.heapLimit h.limit)) h
  else grow n { h with used := h.used + n }

/-- The largest block that a host can make. -/
def maxBlock : Nat := 0x1000000000000

/-- Answer a request for more than any host can give: a fault if the limit refuses it,
    else a crash. The sum that is compared with the limit may have wrapped around. -/
def refuse (n : Int) : Action Heap Nat := fun h =>
  if h.passesLimit (Int.bmod (h.used + n) 0x10000000000000000) then
    .error (.fault (.heapLimit h.limit)) h
  else .error .crash h

/-- Cut off a block of the size that was computed for it. -/
def request (n : Int) : Action Heap Nat :=
  if n < 0 then Action.fault (.negativeSize n)
  else if n ≤ maxBlock then reserve n.toNat
  else refuse n

/-- Allocate a zeroed block of `n` bytes. -/
def alloc (n : Int) : Action Heap Addr := do
  return addrOf (← request n)

/-- Replace the bytes of an array from the index `i` on. -/
def overwrite (mem : Array UInt8) (i : Nat) : Bytes → Array UInt8
  | [] => mem
  | b :: bs => overwrite (mem.setIfInBounds i b) (i + 1) bs

/-- Write bytes into the arena at `i`, which must be inside. -/
def write (i : Nat) (bs : Bytes) : Action Heap Unit := fun h =>
  if i + bs.length ≤ h.mem.size then
    .ok () { h with mem := overwrite h.mem i bs }
  else .error .crash h

/-- The `n` bytes of the arena at `i`, which must be inside. -/
def slice (h : Heap) (i n : Nat) : Except Failure Bytes :=
  if i + n ≤ h.mem.size then .ok (h.mem.extract i (i + n)).toList else .error .crash

/-- Copy bytes into a new block and protect it. The limit does not apply. -/
def mapReadOnly (bs : Bytes) : Action Heap Addr := do
  let i ← grow bs.length
  write i bs
  modify fun h => { h with guardLo := i, guardHi := i + bs.length }
  return addrOf i

/-! ## Loads and stores -/

/-- Check that `n` bytes at `p` are memory of the program. -/
def check (h : Heap) (p : Addr) (n : Nat) : Except Failure Unit :=
  if p = Addr.null then .error (.fault .nullAccess)
  else if p.toNat < wordSize ∨ h.size < p.toNat ∨ h.size - p.toNat < n then
    .error (.fault (.address p))
  else .ok ()

/-- Check that moreover none of the `n` bytes at `p` is protected. -/
def checkWritable (h : Heap) (p : Addr) (n : Nat) : Except Failure Unit := do
  h.check p n
  if p.toNat < h.guardHi ∧ h.guardLo < p.toNat + n then .error (.fault (.readOnly p))

/-- The `n` bytes at `p`. -/
def load (h : Heap) (p : Addr) (n : Nat) : Except Failure Bytes := do
  h.check p n
  h.slice p.toNat n

/-- Store bytes at `p`. -/
def store (p : Addr) (bs : Bytes) : Action Heap Unit := fun h =>
  match h.checkWritable p bs.length with
  | .error e => .error e h
  | .ok () => write p.toNat bs h

/-- Load an integer. -/
def loadInt (h : Heap) (p : Addr) : Except Failure Int32 :=
  return intOfBytes (← h.load p intSize)

/-- Store an integer. -/
def storeInt (p : Addr) (n : Int32) : Action Heap Unit :=
  store p (intBytes n)

/-- Load an address. -/
def loadPtr (h : Heap) (p : Addr) : Except Failure Addr :=
  return ptrOfBytes (← h.load p ptrSize)

/-- Store an address. -/
def storePtr (p q : Addr) : Action Heap Unit :=
  store p (ptrBytes q)

/-- Load the byte of a character. -/
def loadByte (h : Heap) (p : Addr) : Except Failure UInt8 := do
  match ← h.load p charSize with
  | b :: _ => return b
  | [] => .error .crash

/-- Load a character. -/
def loadChar (h : Heap) (p : Addr) : Except Failure Int32 :=
  return charOfByte (← h.loadByte p)

/-- Store a character. -/
def storeChar (p : Addr) (b : UInt8) : Action Heap Unit :=
  store p [b]

end Heap

end CZero
