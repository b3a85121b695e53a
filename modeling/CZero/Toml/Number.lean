import CZero.Toml.Text

/-!
# Numbers

Integers are decimal, with an optional sign, or hexadecimal, octal or binary after
`0x`, `0o` and `0b`; they have 64 bits. Floating-point numbers are decimal and must
not be too large for a double. Underscores may stand between digits, and a decimal
number has no leading zeros.
-/

namespace CZero.Toml

/-- Whether a text of digits and underscores is not empty and has every underscore
    between two digits; `digit` tells whether a digit came last. -/
def isGrouped (digit : Bool) : List Char → Bool
  | [] => digit
  | c :: cs => if c == '_' then digit && isGrouped false cs else isGrouped true cs

/-- Digits, as many as there are, perhaps with underscores between them. -/
def digits? (base : Nat) : Reader (List Nat) := fun cs =>
  let run := cs.takeWhile fun c => isDigit base c || c == '_'
  if isGrouped false run then some (run.filterMap (digit? base), cs.drop run.length) else none

/-- Digits that start with a zero only if it is the only one. -/
def whole? : Reader (List Nat) := fun cs =>
  (digits? 10 cs).filter fun (ds, _) => ds.length ≤ 1 || ds.head? != some 0

/-- An integer of 64 bits. -/
def integer? (n : Int) : Option Scalar :=
  if -0x8000000000000000 ≤ n ∧ n < 0x8000000000000000 then some (.integer n) else none

/-- An integer in a base other than ten, after its mark. -/
def based? (base : Nat) : Reader Scalar := fun cs => do
  let (ds, cs) ← digits? base cs
  return (← integer? (valueOf base ds), cs)

/-- The digits after a point, if there is one. -/
def fraction? : Reader (List Nat)
  | '.' :: cs => digits? 10 cs
  | cs => some ([], cs)

/-- An optional sign: whether it is a minus, and what is left. -/
def sign : List Char → Bool × List Char
  | '-' :: cs => (true, cs)
  | '+' :: cs => (false, cs)
  | cs => (false, cs)

/-- Whether a character starts an exponent. -/
def isExponentMark (c : Char) : Bool :=
  c == 'e' || c == 'E'

/-- The value of the digits of an exponent; beyond five digits it makes no difference
    how many more follow. -/
def exponentOf (ds : List Nat) : Nat :=
  ds.foldl (fun n d => if n < 10000 then n * 10 + d else n) 0

/-- The exponent, if there is one. -/
def exponent? : Reader Int
  | [] => some (0, [])
  | c :: cs =>
    if isExponentMark c then do
      let (negative, cs) := sign cs
      let (ds, cs) ← digits? 10 cs
      return (if negative then -(exponentOf ds : Int) else exponentOf ds, cs)
    else some (0, c :: cs)

/-- Half-way between the largest double and the power of two beyond it: what is as
    large as this is too large. -/
def realBound : Nat := Nat.pow 2 1024 - Nat.pow 2 970

/-- Whether a number is too large for a double. -/
def Decimal.isTooLarge (d : Decimal) : Bool :=
  if 0 ≤ d.exponent then realBound ≤ d.mantissa * Nat.pow 10 d.exponent.toNat
  else realBound * Nat.pow 10 (-d.exponent).toNat ≤ d.mantissa

/-- A floating-point number after its sign. -/
def real? (negative : Bool) : Reader Scalar := fun cs => do
  let (ds, cs) ← whole? cs
  let (fs, cs) ← fraction? cs
  let (e, cs) ← exponent? cs
  let d : Decimal := ⟨negative, valueOf 10 (ds ++ fs), e - fs.length⟩
  if d.isTooLarge then none else return (.real (.finite d), cs)

/-- A decimal number after its sign. It is an integer unless a point or an exponent
    follows its first digits. -/
def number? (negative : Bool) : Reader Scalar := fun cs => do
  let (ds, rest) ← whole? cs
  if rest.head?.any fun c => c == '.' || isExponentMark c then real? negative cs
  else
    let n := valueOf 10 ds
    return (← integer? (if negative then -(n : Int) else n), rest)

/-- A number without digits, after its sign. -/
def namedNumber? (negative : Bool) : Reader Scalar := fun cs =>
  match word? "inf" cs with
  | some cs => some (.real (.infinite negative), cs)
  | none => (word? "nan" cs).map (.real .undefined, ·)

/-- A number after a sign. -/
def signedNumber? (negative : Bool) : Reader Scalar := fun cs =>
  match namedNumber? negative cs with
  | some r => some r
  | none => number? negative cs

/-- A number without sign that starts with a digit. -/
def plainNumber? : Reader Scalar
  | '0' :: 'x' :: cs => based? 16 cs
  | '0' :: 'o' :: cs => based? 8 cs
  | '0' :: 'b' :: cs => based? 2 cs
  | cs => number? false cs

end CZero.Toml
