import CZero.Text.Bytes

/-!
# TOML documents as they are written

A document is a list of statements: a table header `[a.b]`, a header `[[a.b]]` of
one more table of a list, or a pair `a.b = value`. Values are scalars, lists and
tables written inline, whose keys may be dotted too. What the statements define
together is another matter (`CZero.Toml.Document`).
-/

namespace CZero.Toml

/-- A dotted key, part by part. -/
abbrev Key := List String

/-- What a reader of text gives: a result and the text that is left. -/
abbrev Reader (α : Type) := List Char → Option (α × List Char)

/-- The number `mantissa · 10 ^ exponent`, or its negative. -/
structure Decimal where
  /-- Whether it has a minus sign. -/
  negative : Bool
  /-- Its digits, without sign and point. -/
  mantissa : Nat
  /-- Where the point is. -/
  exponent : Int
deriving DecidableEq, Repr

/-- A floating-point number. -/
inductive Real where
  /-- A number in decimal form. -/
  | finite (d : Decimal)
  /-- An infinity. -/
  | infinite (negative : Bool)
  /-- Not a number. -/
  | undefined
deriving DecidableEq, Repr

/-- A day. -/
structure Date where
  /-- The year, from 0 to 9999. -/
  year : Nat
  /-- The month, from 1. -/
  month : Nat
  /-- The day of the month, from 1. -/
  day : Nat
deriving DecidableEq, Repr

/-- A time of day. -/
structure Time where
  /-- The hour. -/
  hour : Nat
  /-- The minute. -/
  minute : Nat
  /-- The second. -/
  second : Nat := 0
  /-- The digits of a fraction of a second. -/
  fraction : List Nat := []
deriving DecidableEq, Repr

/-- A point in time, as far as it is given. -/
inductive Moment where
  /-- A day. -/
  | date (d : Date)
  /-- A time of any day. -/
  | time (t : Time)
  /-- A time of a day; with an offset in minutes, the same everywhere. -/
  | dateTime (d : Date) (t : Time) (offset : Option Int)
deriving DecidableEq, Repr

/-- A value without parts. -/
inductive Scalar where
  /-- A string. -/
  | string (s : String)
  /-- An integer. -/
  | integer (n : Int)
  /-- A floating-point number. -/
  | real (x : Real)
  /-- A truth value. -/
  | boolean (b : Bool)
  /-- A point in time. -/
  | moment (m : Moment)
deriving DecidableEq, Repr

/-- A value as it is written. -/
inductive Expr where
  /-- A value without parts. -/
  | scalar (s : Scalar)
  /-- A list. -/
  | list (items : List Expr)
  /-- A table written inline. -/
  | table (pairs : List (Key × Expr))

/-- A statement of a document. -/
inductive Statement where
  /-- The pairs that follow belong to this table. -/
  | table (k : Key)
  /-- The pairs that follow belong to one more table of this list. -/
  | listed (k : Key)
  /-- A key and its value. -/
  | pair (k : Key) (e : Expr)

/-! ## Keys in messages -/

/-- The characters of a part that needs no quotes. -/
def isBare (c : Char) : Bool :=
  c.isAlphanum || c == '_' || c == '-'

/-- A character inside quotes. -/
def escaped (c : Char) : Bytes :=
  if c == '\x22' then utf8 "\\\""
  else if c == '\x5c' then utf8 "\\\\"
  else if c == '\x08' then utf8 "\\b"
  else if c == '\t' then utf8 "\\t"
  else if c == '\n' then utf8 "\\n"
  else if c == '\x0c' then utf8 "\\f"
  else if c == '\r' then utf8 "\\r"
  else if c.toNat < 0x20 || c.toNat == 0x7F then utf8 "\\u" ++ zeroPad 4 (hex c.toNat)
  else utf8 (String.singleton c)

/-- A part of a key: as it is if it is bare, and in quotes otherwise. -/
def partText (p : String) : Bytes :=
  if p.toList.isEmpty || !p.toList.all isBare then
    utf8 "\"" ++ p.toList.flatMap escaped ++ utf8 "\""
  else utf8 p

/-- A dotted key. -/
def Key.text (k : Key) : Bytes :=
  (utf8 ".").intercalate (k.map partText)

end CZero.Toml
