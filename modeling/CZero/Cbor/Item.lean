import CZero.Text.Bytes

/-!
# CBOR items

The data items of the Concise Binary Object Representation. `Item.encode` writes an
item with the shortest heads and definite lengths; `Item.decode?` reads one item
that takes up all bytes.

Reading is bounded: arrays and maps have at most 131072 elements and are at most 32
deep, where every tag that directly encloses another one counts as a level too.
-/

namespace CZero.Cbor

/-- A data item. -/
inductive Item where
  /-- A natural number. -/
  | uint (n : Nat)
  /-- The negative number `-1 - n`. -/
  | nint (n : Nat)
  /-- A byte string. -/
  | bytes (b : Bytes)
  /-- A text, in the chunks in which it was written. -/
  | text (chunks : List Bytes)
  /-- An array. -/
  | array (items : List Item)
  /-- A map: keys and values in turn. -/
  | map (entries : List Item)
  /-- A tagged item. -/
  | tag (n : Nat) (content : Item)
  /-- A simple value. -/
  | simple (n : Nat)
  /-- A floating-point number of `width` bytes, as its bits. -/
  | float (width bits : Nat)

/-- The most elements of an array, or pairs of a map, that are read. -/
def maxElements : Nat := 131072

/-- The deepest nesting that is read. -/
def maxDepth : Nat := 32

/-- The byte that ends an item of indefinite length. -/
def breakByte : UInt8 := 0xFF

/-! ## Writing -/

/-- Append the `w` low bytes of `n`, the highest first. -/
def pushNumber (out : Array UInt8) : (w n : Nat) → Array UInt8
  | 0, _ => out
  | w + 1, n => (pushNumber out w (n / 256)).push (UInt8.ofNat n)

/-- Append the head of an item: its major type and its argument, as short as possible. -/
def pushHead (out : Array UInt8) (major n : Nat) : Array UInt8 :=
  let lead := fun info => out.push (UInt8.ofNat (major * 32 + info))
  if n < 24 then lead n
  else if n < 256 then pushNumber (lead 24) 1 n
  else if n < 65536 then pushNumber (lead 25) 2 n
  else if n < 4294967296 then pushNumber (lead 26) 4 n
  else pushNumber (lead 27) 8 n

mutual

/-- Append an item. -/
def Item.write (out : Array UInt8) : Item → Array UInt8
  | .uint n => pushHead out 0 n
  | .nint n => pushHead out 1 n
  | .bytes b => pushHead out 2 b.length ++ b.toArray
  | .text chunks => pushHead out 3 chunks.flatten.length ++ chunks.flatten.toArray
  | .array items => Item.writeAll (pushHead out 4 items.length) items
  | .map entries => Item.writeAll (pushHead out 5 (entries.length / 2)) entries
  | .tag n x => x.write (pushHead out 6 n)
  | .simple n => pushHead out 7 n
  | .float width bits => pushNumber (out.push (UInt8.ofNat (7 * 32 + 24 + width.log2))) width bits

/-- Append items. -/
def Item.writeAll (out : Array UInt8) : List Item → Array UInt8
  | [] => out
  | x :: xs => Item.writeAll (x.write out) xs

end

/-- The bytes of an item. -/
def Item.encode (x : Item) : Bytes :=
  (x.write #[]).toList

/-! ## Reading -/

/-- A reader of one thing, which gives back the bytes behind it. -/
abbrev Reader (α : Type) := Bytes → Option (α × Bytes)

/-- The first byte of an item taken apart, with its argument. An additional
    information of 31 stands for an indefinite length. -/
structure Head where
  /-- The major type. -/
  major : Nat
  /-- The additional information. -/
  info : Nat
  /-- The argument. -/
  arg : Nat

/-- The number with the given bytes, the highest first. -/
def ofHighBytes (bs : Bytes) : Nat :=
  bs.foldl (fun n b => n * 256 + b.toNat) 0

/-- Take `n` bytes. -/
def takeBytes (n : Nat) : Reader Bytes := fun bs =>
  let front := bs.take n
  if front.length < n then none else some (front, bs.drop n)

/-- The length of the argument that an additional information announces. -/
def argLength? (info : Nat) : Option Nat :=
  match info with
  | 24 => some 1
  | 25 => some 2
  | 26 => some 4
  | 27 => some 8
  | _ => none

/-- Whether a major type has items of indefinite length. -/
def hasIndefinite (major : Nat) : Bool :=
  2 ≤ major && major ≤ 5

/-- Read a head. Simple values below 32 have one byte only, and a break is no head. -/
def head : Reader Head
  | [] => none
  | b :: rest =>
    let major := b.toNat / 32
    let info := b.toNat % 32
    if info < 24 then some (⟨major, info, info⟩, rest)
    else if info = 31 then
      if hasIndefinite major then some (⟨major, info, 0⟩, rest) else none
    else match argLength? info with
      | none => none
      | some w => match takeBytes w rest with
        | none => none
        | some (arg, rest) =>
          if major = 7 ∧ info = 24 ∧ ofHighBytes arg < 32 then none
          else some (⟨major, info, ofHighBytes arg⟩, rest)

/-- Read the chunks of a string of the given major type up to the break, at most
    `budget`, and put them behind `acc` (reversed). -/
def chunks (major : Nat) (acc : List Bytes) : (budget : Nat) → Reader (List Bytes)
  | 0, _ => none
  | budget + 1, bs =>
    if bs.head? = some breakByte then some (acc.reverse, bs.drop 1)
    else match head bs with
      | none => none
      | some (h, rest) =>
        if h.major ≠ major ∨ h.info = 31 then none
        else match takeBytes h.arg rest with
          | none => none
          | some (chunk, rest) => chunks major (chunk :: acc) budget rest

/-- Read the chunks of a string after its head. -/
def stringChunks (h : Head) : Reader (List Bytes) := fun bs =>
  if h.info = 31 then chunks h.major [] (bs.length + 1) bs
  else (takeBytes h.arg bs).map fun (b, rest) => ([b], rest)

/-- Read `n` items and put them behind `acc` (reversed). -/
def counted (item : Reader Item) (acc : List Item) : (n : Nat) → Reader (List Item)
  | 0, bs => some (acc.reverse, bs)
  | n + 1, bs => match item bs with
    | none => none
    | some (x, rest) => counted item (x :: acc) n rest

/-- Read items up to the break, at most `budget`, and put them behind `acc` (reversed). -/
def untilBreak (item : Reader Item) (acc : List Item) : (budget : Nat) → Reader (List Item)
  | budget, bs =>
    if bs.head? = some breakByte then some (acc.reverse, bs.drop 1)
    else match budget with
      | 0 => none
      | budget + 1 => match item bs with
        | none => none
        | some (x, rest) => untilBreak item (x :: acc) budget rest

/-- Read the items of an array (`width` 1) or map (`width` 2) after its head. -/
def elements (item : Reader Item) (h : Head) (width : Nat) : Reader (List Item) := fun bs =>
  if h.info = 31 then
    match untilBreak item [] (width * maxElements) bs with
    | some (xs, rest) => if xs.length % width = 0 then some (xs, rest) else none
    | none => none
  else if maxElements < h.arg then none
  else counted item [] (width * h.arg) bs

/-- The level of the content of a tag on the level `depth`. -/
def tagDepth (depth : Nat) (content : Bytes) : Nat :=
  match content with
  | b :: _ => if b.toNat / 32 = 6 then depth + 1 else depth
  | [] => depth

/-- Read an item on the level `depth`, in which at most `fuel` items are nested. -/
def item : (fuel depth : Nat) → Reader Item
  | 0, _, _ => none
  | fuel + 1, depth, bs => match head bs with
    | none => none
    | some (h, rest) => match h.major with
      | 0 => some (.uint h.arg, rest)
      | 1 => some (.nint h.arg, rest)
      | 2 => (stringChunks h rest).map fun (cs, rest) => (.bytes cs.flatten, rest)
      | 3 => (stringChunks h rest).map fun (cs, rest) => (.text cs, rest)
      | 4 =>
        if maxDepth < depth + 1 then none
        else (elements (item fuel (depth + 1)) h 1 rest).map fun (xs, rest) => (.array xs, rest)
      | 5 =>
        if maxDepth < depth + 1 then none
        else (elements (item fuel (depth + 1)) h 2 rest).map fun (xs, rest) => (.map xs, rest)
      | 6 =>
        let inner := tagDepth depth rest
        if depth < inner ∧ maxDepth < inner then none
        else (item fuel inner rest).map fun (x, rest) => (.tag h.arg x, rest)
      | _ => match h.info with
        | 25 => some (.float 2 h.arg, rest)
        | 26 => some (.float 4 h.arg, rest)
        | 27 => some (.float 8 h.arg, rest)
        | _ => some (.simple h.arg, rest)

/-- The item that takes up all bytes. Every level of nesting takes a byte, which
    bounds the recursion. -/
def Item.decode? (bs : Bytes) : Option Item :=
  match item (bs.length + 1) 0 bs with
  | some (x, []) => some x
  | _ => none

end CZero.Cbor
