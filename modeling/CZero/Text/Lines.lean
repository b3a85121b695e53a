import CZero.Text.Bytes

/-!
# Lines

A line ends with a newline; a last line may go without, unless it is empty.
-/

namespace CZero.Text

/-- A line read so far (reversed) put in front of the lines found so far. -/
def closeLine (cur : Bytes) (done : List Bytes) : List Bytes :=
  cur.reverse :: done

/-- The lines of a byte string, after the line `cur` (reversed) that is being read
    and the lines `done` (reversed). -/
def linesAux (cur : Bytes) (done : List Bytes) : Bytes → List Bytes
  | [] => (if cur.isEmpty then done else closeLine cur done).reverse
  | b :: bs =>
    if b = 0x0A then linesAux [] (closeLine cur done) bs else linesAux (b :: cur) done bs

/-- The lines of a byte string, without their newlines. -/
def lines (bs : Bytes) : List Bytes :=
  linesAux [] [] bs

end CZero.Text
