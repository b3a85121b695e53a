import CZero.Text.Blank

/-!
# Integers in text

A numeral is an optional sign and one or more digits of a base, letters of either
case standing for the digits from ten on. It is read if its value fits in 32 bits.
-/

namespace CZero.Text

/-- The value of a digit, whatever the base. -/
def digitValue? (b : UInt8) : Option Nat :=
  if 0x30 ≤ b ∧ b ≤ 0x39 then some (b.toNat - 0x30)
  else if 0x41 ≤ b ∧ b ≤ 0x5A then some (b.toNat - 0x41 + 10)
  else if 0x61 ≤ b ∧ b ≤ 0x7A then some (b.toNat - 0x61 + 10)
  else none

/-- The value of a digit of the base. -/
def digit? (base : Nat) (b : UInt8) : Option Nat :=
  (digitValue? b).filter (· < base)

/-- The value of the digits, after digits of the value `acc`. -/
def digitsValue? (base : Nat) (acc : Nat) : Bytes → Option Nat
  | [] => some acc
  | b :: bs => match digit? base b with
    | some d => digitsValue? base (acc * base + d) bs
    | none => none

/-- The value of a numeral without sign. -/
def natural? (base : Nat) (bs : Bytes) : Option Nat :=
  if bs.isEmpty then none else digitsValue? base 0 bs

/-- The value of a numeral. -/
def integer? (base : Nat) : Bytes → Option Int
  | [] => none
  | b :: bs =>
    if b = 0x2B then (natural? base bs).map Int.ofNat
    else if b = 0x2D then (natural? base bs).map fun n => -(n : Int)
    else (natural? base (b :: bs)).map Int.ofNat

/-- The value of a numeral that fits in 32 bits. -/
def int32? (base : Nat) (bs : Bytes) : Option Int32 :=
  ((integer? base bs).filter fun n => -0x80000000 ≤ n ∧ n < 0x80000000).map Int32.ofInt

/-- The values of all fields of a text, if each is a numeral. -/
def integers? (base : Nat) (bs : Bytes) : Option (List Int32) :=
  (fields bs).mapM (int32? base)

end CZero.Text
