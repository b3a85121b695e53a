import CZero.Text.Bytes

/-!
# Cells

Operand stacks and local variables hold tagged cells: a 32-bit integer or the
address of a byte of the heap. Booleans and characters are integers. Address 0
is the null pointer.
-/

namespace CZero

/-- An address of the heap. -/
abbrev Addr := UInt64

/-- The null pointer. -/
def Addr.null : Addr := 0

/-- A tagged value. -/
inductive Cell where
  /-- A 32-bit integer. -/
  | int (n : Int32)
  /-- The address of a byte. -/
  | ptr (p : Addr)
deriving DecidableEq, Repr

namespace Cell

/-- The integer zero, which fresh local variables hold. -/
def zero : Cell := .int 0

/-- The null pointer as a cell. -/
def null : Cell := .ptr Addr.null

/-- A truth value as a cell: 1 or 0. -/
def ofBool (b : Bool) : Cell :=
  .int (if b then 1 else 0)

instance : Inhabited Cell := ⟨zero⟩

/-- The name of the tag. -/
def tagName : Cell → String
  | .int _ => "int"
  | .ptr _ => "pointer"

/-- The text of a cell: a decimal numeral, or a hexadecimal address, or `NULL`. -/
def text : Cell → Bytes
  | .int n => decimal n.toInt
  | .ptr p => if p = Addr.null then utf8 "NULL" else utf8 "0x" ++ hex p.toNat

end Cell

end CZero
