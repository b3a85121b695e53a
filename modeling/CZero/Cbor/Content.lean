import CZero.Cbor.Item
import CZero.Text.Utf8

/-!
# What an item says

The content of an item is what is left once its tags have been read. Most tags say
nothing here. Tags 0 to 3 demand an item of a certain kind behind them: a text, a
number, and twice a byte string, which is then a big number.

A content is put into a destination: a number of a range, a byte string, a list, or
a record with named fields. Null stands for whatever the destination holds
when nothing is said.
-/

namespace CZero.Cbor

/-- An item without its tags. -/
inductive Content where
  | int (n : Int)
  | bytes (b : Bytes)
  | big (negative : Bool) (b : Bytes)
  | text
  | array (items : List Item)
  | map (entries : List Item)
  | bool
  | null
  | float

/-- The content of an item, if its tags are rightly used. -/
def Item.content? : Item → Option Content
  | .uint n => some (.int n)
  | .nint n => some (.int (-1 - n))
  | .bytes b => some (.bytes b)
  | .text _ => some .text
  | .array items => some (.array items)
  | .map entries => some (.map entries)
  | .simple n =>
    if n = 20 ∨ n = 21 then some .bool
    else if n = 22 ∨ n = 23 then some .null
    else some (.int n)
  | .float _ _ => some .float
  | .tag n x =>
    if n = 0 then match x with
      | .text _ => some .text
      | _ => none
    else if n = 1 then match x with
      | .uint _ | .nint _ | .float _ _ => x.content?
      | _ => none
    else if n = 2 ∨ n = 3 then match x with
      | .bytes b => some (.big (n = 3) b)
      | _ => none
    else x.content?

/-- The null item. -/
def Item.null : Item := .simple 22

/-- The number `n`. -/
def Item.ofInt : Int → Item
  | .ofNat n => .uint n
  | .negSucc n => .nint n

/-- The number in an item, if it lies in a range; null is zero. -/
def Item.number? (lo hi : Int) (x : Item) : Option Int :=
  let n := match x.content? with
    | some (.int n) => some n
    | some (.big false b) => some (ofHighBytes b)
    | some (.big true b) => some (-1 - ofHighBytes b)
    | some .null => some 0
    | _ => none
  n.filter fun n => lo ≤ n ∧ n ≤ hi

/-- The 16-bit number in an item. -/
def Item.word? (x : Item) : Option UInt16 :=
  (x.number? 0 65535).map fun n => UInt16.ofNat n.toNat

/-- The elements of an array, each read by `read?`; null is no array at all. -/
def Item.list? {α : Type} (read? : Item → Option α) (x : Item) : Option (Option (Array α)) :=
  match x.content? with
  | some .null => some none
  | some (.array items) => (items.mapM read?).map fun as => some as.toArray
  | _ => none

/-- The byte in an item. -/
def Item.byte? (x : Item) : Option UInt8 :=
  (x.number? 0 255).map fun n => UInt8.ofNat n.toNat

/-- The bytes in an item: a byte string, a big number or an array of bytes; null is no
    byte string at all. -/
def Item.bytes? (x : Item) : Option (Option (Array UInt8)) :=
  match x.content? with
  | some (.bytes b) | some (.big _ b) => some (some b.toArray)
  | _ => x.list? Item.byte?

/-! ## Records -/

/-- The lower-case form of an ASCII letter; other bytes stay. -/
def lowerByte (b : UInt8) : UInt8 :=
  if 0x41 ≤ b ∧ b ≤ 0x5A then b + 0x20 else b

/-- The first of the names that a key means: exactly, or else ignoring case. -/
def matchName? (names : List String) (key : Bytes) : Option String :=
  match names.find? (fun n => utf8 n == key) with
  | some n => some n
  | none => names.find? fun n => (utf8 n).map lowerByte == key.map lowerByte

/-- The fields of a record. Of several keys that mean the same name the first counts;
    keys that mean no name, and numbers, are passed over; other keys are refused. -/
def collectFields (names : List String) (found : List (String × Item)) :
    List Item → Option (List (String × Item))
  | .text chunks :: value :: rest =>
    if chunks.all Utf8.isValid then
      match matchName? names chunks.flatten with
      | some n => collectFields (names.erase n) ((n, value) :: found) rest
      | none => collectFields names found rest
    else none
  | .uint _ :: _ :: rest => collectFields names found rest
  | .nint n :: _ :: rest => if n < 0x8000000000000000 then collectFields names found rest else none
  | [] => some found
  | _ => none

/-- The fields of a record with the given names; null has none. -/
def Item.fields? (names : List String) (x : Item) : Option (List (String × Item)) :=
  match x.content? with
  | some .null => some []
  | some (.map entries) => collectFields names [] entries
  | _ => none

/-- A field read by `read?`; if it is absent, as if it were null. -/
def field? {α : Type} (read? : Item → Option α) (name : String) (fields : List (String × Item)) :
    Option α :=
  read? ((fields.lookup name).getD .null)

/-- The key of a field. -/
def Item.key (name : String) : Item :=
  .text [utf8 name]

end CZero.Cbor
