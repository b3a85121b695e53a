import CZero.Heap.Strings

/-!
# Arrays in the heap

An array is a header of 16 bytes, which holds the number of elements, their size
and the address of the block of elements. The elements come first in memory; when
the limit refuses the header, their block stays.

The size of the elements is computed in 64-bit arithmetic, and so are addresses
of elements: a header that was overwritten can give any address, and it is the
load or store there that is checked.
-/

namespace CZero.Heap

/-- The size of the header of an array. -/
def headerSize : Nat := 16

/-- The bytes of a header. -/
def headerBytes (count : Int32) (eltSize : Int) (elems : Addr) : Bytes :=
  intBytes count ++ intBytes (Int32.ofInt eltSize) ++ ptrBytes elems

/-- Allocate an array of `count` zeroed elements of `eltSize` bytes. -/
def allocArray (count : Int32) (eltSize : Int) : Action Heap Addr := do
  if count < 0 then Action.fault (.negativeCount count)
  let elems ← request (Int.bmod (count.toInt * eltSize) 0x10000000000000000)
  let header ← reserve headerSize
  write header (headerBytes count eltSize (addrOf elems))
  return addrOf header

/-- The number of elements of the array at `p`. -/
def arrayLength (h : Heap) (p : Addr) : Except Failure Int32 :=
  if p = Addr.null then .error (.fault .nullArray) else h.loadInt p

/-- The address of the element `i` of the array at `p`. -/
def arrayElement (h : Heap) (p : Addr) (i : Int32) : Except Failure Addr := do
  if p = Addr.null then .error (.fault .nullArray)
  let header ← h.load p headerSize
  let count := intOfBytes (header.take 4)
  let eltSize := intOfBytes ((header.drop 4).take 4)
  let elems := ptrOfBytes (header.drop 8)
  if i < 0 ∨ count ≤ i then .error (.fault (.arrayIndex i count))
  return elems + (Int64.ofInt (i.toInt * eltSize.toInt)).toUInt64

/-! ## Cells and arrays with given contents -/

/-- Allocate an integer cell that holds `n`. -/
def boxInt (n : Int32) : Action Heap Addr := do
  let p ← alloc intSize
  storeInt p n
  return p

/-- Allocate a one-byte cell that holds a truth value. -/
def boxBool (b : Bool) : Action Heap Addr := do
  let p ← alloc charSize
  if b then storeChar p 1
  return p

/-- Store integers in the array at `p`, from the element `i` on. -/
def fillInts (p : Addr) (i : Int32) : List Int32 → Action Heap Unit
  | [] => pure ()
  | n :: ns => do
    let q ← Action.ofResult ((← get).arrayElement p i)
    storeInt q n
    fillInts p (i + 1) ns

/-- Allocate an array of the given integers. -/
def allocInts (ns : List Int32) : Action Heap Addr := do
  let p ← allocArray (Int32.ofNat ns.length) intSize
  fillInts p 0 ns
  return p

/-- Allocate strings one by one and store their addresses in the array at `p`,
    from the element `i` on. -/
def fillStrings (p : Addr) (i : Int32) : List Bytes → Action Heap Unit
  | [] => pure ()
  | s :: ss => do
    let a ← allocString s
    let q ← Action.ofResult ((← get).arrayElement p i)
    storePtr q a
    fillStrings p (i + 1) ss

/-- Allocate an array of the given strings. -/
def allocStrings (ss : List Bytes) : Action Heap Addr := do
  let p ← allocArray (Int32.ofNat ss.length) ptrSize
  fillStrings p 0 ss
  return p

/-- Store bytes in the array at `p`, from the element `i` on. -/
def fillChars (p : Addr) (i : Int32) : Bytes → Action Heap Unit
  | [] => pure ()
  | b :: bs => do
    let q ← Action.ofResult ((← get).arrayElement p i)
    storeChar q b
    fillChars p (i + 1) bs

/-- Allocate an array of the given characters. -/
def allocChars (bs : Bytes) : Action Heap Addr := do
  let p ← allocArray (Int32.ofNat bs.length) charSize
  fillChars p 0 bs
  return p

/-- The character in the element `i` of the array at `p`, as a byte. -/
def elementByte (h : Heap) (p : Addr) (i : Int32) : Except Failure UInt8 := do
  h.loadByte (← h.arrayElement p i)

/-- The characters in `n` elements of the array at `p`, from the element `i` on,
    after the characters `acc` (reversed). -/
def readCharsFrom (h : Heap) (p : Addr) (acc : Bytes) (i : Int32) : Nat → Except Failure Bytes
  | 0 => .ok acc.reverse
  | n + 1 => do
    let b ← h.elementByte p i
    readCharsFrom h p (b :: acc) (i + 1) n

/-- The first `n` characters of the array at `p`, for the native function `name`.
    The last one is tried first. A buffer of negative length is a crash. -/
def readChars (h : Heap) (name : String) (p : Addr) (n : Int32) : Except Failure Bytes := do
  if n < 0 then .error (.fault (.contract name (.negativeLength n)))
  if 0 < n then
    let _ ← h.elementByte p (n - 1)
  match n.toInt with
  | .ofNat k => readCharsFrom h p [] 0 k
  | .negSucc _ => .error .crash

end CZero.Heap
