import CZero.Proofs.Step
import Mathlib.Data.Int.Bitwise
import Mathlib.Data.Int.ModEq

/-!
# Integer instructions against exact integers

The instructions that operate on two integers are held to what is meant by them in exact
integers (`IntOp.Exact`). Sums, differences, products and shifts to the left are right up to
multiples of 2^32. A quotient is rounded towards zero and goes with its remainder
(`IntOp.Divides`), a shift to the right is rounded down, and bits are those of two's
complement, in which a negative number has ones without end.

Quotients, remainders and shifts are refused for some operands (`IntOp.Refuses`), and only
for these. So every one of these instructions finds two integers on the stack and puts the
exact result in their place, or it is a fault (`integers_exact`).
-/

namespace CZero

open CZero.Action

namespace IntOp

/-- The opcode of an operation. -/
def opcode : IntOp → Opcode
  | .add => .iadd
  | .sub => .isub
  | .mul => .imul
  | .div => .idiv
  | .rem => .irem
  | .and => .iand
  | .or => .ior
  | .xor => .ixor
  | .shl => .ishl
  | .shr => .ishr

/-- Divided by `b`, the number `a` gives the quotient `q` and leaves `r`, which is nearer to
    zero than `b` and on the same side of it as `a`. -/
structure Divides (a b q r : Int) : Prop where
  eq : a = q * b + r
  small : r.natAbs < b.natAbs
  sign : r = 0 ∨ r.sign = a.sign

/-- The operands that an operation refuses. -/
def Refuses (op : IntOp) (a b : Int) : Prop :=
  match op with
  | .div | .rem => b = 0 ∨ a = -2 ^ 31 ∧ b = -1
  | .shl | .shr => b < 0 ∨ 32 ≤ b
  | .add | .sub | .mul | .and | .or | .xor => False

instance (op : IntOp) (a b : Int) : Decidable (op.Refuses a b) := by
  cases op <;> unfold Refuses <;> infer_instance

/-- What the result `n` of an operation on `a` and `b` is in exact integers. -/
def Exact (op : IntOp) (a b n : Int) : Prop :=
  match op with
  | .add => n ≡ a + b [ZMOD 2 ^ 32]
  | .sub => n ≡ a - b [ZMOD 2 ^ 32]
  | .mul => n ≡ a * b [ZMOD 2 ^ 32]
  | .div => ∃ r, Divides a b n r
  | .rem => ∃ q, Divides a b q n
  | .and => ∀ i, n.testBit i = (a.testBit i && b.testBit i)
  | .or => ∀ i, n.testBit i = (a.testBit i || b.testBit i)
  | .xor => ∀ i, n.testBit i = (a.testBit i ^^ b.testBit i)
  | .shl => n ≡ a * 2 ^ b.toNat [ZMOD 2 ^ 32]
  | .shr => n = a / 2 ^ b.toNat

variable {op : IntOp} {a b : Int32}

/-! ## Division -/

theorem divides_tdiv {a b : Int} (hb : b ≠ 0) : Divides a b (a.tdiv b) (a.tmod b) where
  eq := (Int.tdiv_mul_add_tmod a b).symm
  small := by
    rw [Int.natAbs_tmod]
    exact Nat.mod_lt _ (Int.natAbs_pos.2 hb)
  sign := by
    have hsign := Int.sign_tmod a b
    split at hsign
    · exact .inl (Int.sign_eq_zero_iff_zero.1 hsign)
    · exact .inr hsign

/-- Of all quotients, only the one that is refused does not fit in 32 bits. -/
theorem divides_int32 (h : ¬Refuses .div a.toInt b.toInt) :
    Divides a.toInt b.toInt (a / b).toInt (a % b).toInt := by
  rw [Refuses, not_or] at h
  have hdiv : (a / b).toInt = a.toInt.tdiv b.toInt := by
    rcases not_and_or.1 h.2 with ha | hb
    · exact Int32.toInt_div_of_ne_left a b fun heq => ha (heq ▸ Int32.toInt_minValue)
    · exact Int32.toInt_div_of_ne_right a b fun heq => hb (heq ▸ rfl)
  rw [hdiv, Int32.toInt_mod]
  exact divides_tdiv h.1

/-! ## Bits -/

/-- The bits of a word as an integer: behind the last one, the sign goes on. -/
theorem testBit_toInt {w : Nat} (x : BitVec w) (i : Nat) :
    x.toInt.testBit i = if i < w then x.getLsbD i else x.msb := by
  rw [BitVec.toInt_eq_msb_cond]
  cases hmsb : x.msb with
  | false =>
    rw [if_neg Bool.false_ne_true]
    change x.toNat.testBit i = _
    rw [BitVec.testBit_toNat]
    split
    · rfl
    · exact BitVec.getLsbD_of_ge x i (Nat.not_lt.1 ‹_›)
  | true =>
    -- The complement of a negative number is a natural one with all bits exchanged.
    have hlt := x.isLt
    have hneg : (x.toNat : Int) - (2 ^ w : Nat) = Int.negSucc (2 ^ w - (x.toNat + 1)) := by omega
    rw [if_pos rfl, hneg]
    change (!(2 ^ w - (x.toNat + 1)).testBit i) = _
    rw [Nat.testBit_two_pow_sub_succ hlt, BitVec.testBit_toNat]
    split <;> simp [*]

theorem testBit_and (a b : Int32) (i : Nat) :
    (a &&& b).toInt.testBit i = (a.toInt.testBit i && b.toInt.testBit i) := by
  simp only [Int32.toInt, Int32.toBitVec_and, testBit_toInt, BitVec.getLsbD_and, BitVec.msb_and]
  split <;> rfl

theorem testBit_or (a b : Int32) (i : Nat) :
    (a ||| b).toInt.testBit i = (a.toInt.testBit i || b.toInt.testBit i) := by
  simp only [Int32.toInt, Int32.toBitVec_or, testBit_toInt, BitVec.getLsbD_or, BitVec.msb_or]
  split <;> rfl

theorem testBit_xor (a b : Int32) (i : Nat) :
    (a ^^^ b).toInt.testBit i = (a.toInt.testBit i ^^ b.toInt.testBit i) := by
  simp only [Int32.toInt, Int32.toBitVec_xor, testBit_toInt, BitVec.getLsbD_xor, BitVec.msb_xor]
  split <;> rfl

/-! ## Residues and shifts -/

theorem bmod_modEq (n : Int) : n.bmod (2 ^ 32) ≡ n [ZMOD 2 ^ 32] :=
  Int.bmod_emod

/-- An integer of 32 bits is determined by its residue. -/
theorem eq_of_modEq (h : a.toInt ≡ b.toInt [ZMOD 2 ^ 32]) : a = b := by
  have hmod : a.toInt % 2 ^ 32 = b.toInt % 2 ^ 32 := h
  have ha := a.le_toInt
  have ha' := a.toInt_lt
  have hb := b.le_toInt
  have hb' := b.toInt_lt
  exact Int32.toInt_inj.1 (by omega)

section

variable (hb : ¬(b.toInt < 0 ∨ 32 ≤ b.toInt))
include hb

/-- A word is shifted by as much as is asked for. -/
theorem toNat_smod : (b.toBitVec.smod 32).toNat = b.toInt.toNat := by
  have hsmod : (b.toBitVec.smod 32).toInt = b.toInt := by
    rw [BitVec.toInt_smod]
    exact Int.fmod_eq_of_lt (by change 0 ≤ b.toInt; omega) (by change b.toInt < 32; omega)
  have hcond := BitVec.toInt_eq_toNat_cond (b.toBitVec.smod 32)
  have hlt := (b.toBitVec.smod 32).isLt
  rw [hsmod] at hcond
  split at hcond <;> omega

theorem shiftLeft_modEq : (a <<< b).toInt ≡ a.toInt * 2 ^ b.toInt.toNat [ZMOD 2 ^ 32] := by
  have hshift : (a <<< b).toInt = (a.toBitVec <<< b.toInt.toNat).toInt := by
    rw [← toNat_smod hb]
    exact congrArg BitVec.toInt (Int32.toBitVec_shiftLeft a b)
  have hword : (a.toBitVec.toNat : Int) ≡ a.toInt [ZMOD 2 ^ 32] := by
    have ha : a.toInt = Int.bmod a.toBitVec.toNat (2 ^ 32) := BitVec.toInt_eq_toNat_bmod _
    rw [ha]
    exact (bmod_modEq _).symm
  rw [hshift, BitVec.toInt_shiftLeft, Nat.shiftLeft_eq]
  refine (bmod_modEq _).trans ?_
  push_cast
  exact hword.mul_right _

theorem toInt_shiftRight : (a >>> b).toInt = a.toInt / 2 ^ b.toInt.toNat := by
  have hshift : (a >>> b).toInt = (a.toBitVec.sshiftRight b.toInt.toNat).toInt := by
    rw [← toNat_smod hb]
    exact congrArg BitVec.toInt (Int32.toBitVec_shiftRight a b)
  rw [hshift, BitVec.toInt_sshiftRight, Int.shiftRight_eq_div_pow]
  push_cast
  rfl

end

/-! ## Results -/

theorem checkDivision_of_refuses (h : Refuses .div a.toInt b.toInt) :
    ∃ c : Fault.Cause, c.kind = .arithmetic ∧ apply.checkDivision a b = .error (.fault c) := by
  rw [apply.checkDivision]
  rcases h with hb | ⟨ha, hb⟩
  · rw [if_pos (Int32.toInt_inj.1 hb)]
    exact ⟨_, rfl, rfl⟩
  · have ha : a = -2147483648 := Int32.toInt_inj.1 ha
    have hb : b = -1 := Int32.toInt_inj.1 hb
    subst ha hb
    exact ⟨_, rfl, rfl⟩

theorem divide_of_not_refuses (h : ¬Refuses .div a.toInt b.toInt) (f : Int32 → Int32 → Int32) :
    (do apply.checkDivision a b; apply.divide f a b) = .ok (f a b) := by
  rw [Refuses, not_or] at h
  have hb : b ≠ 0 := fun heq => h.1 (heq ▸ rfl)
  have hover : ¬(a = -2147483648 ∧ b = -1) := by
    rintro ⟨rfl, rfl⟩
    exact h.2 ⟨rfl, rfl⟩
  rw [apply.checkDivision, apply.divide, if_neg hb, if_neg hover, if_neg hb]
  rfl

theorem shift_iff : (b < 0 ∨ 32 ≤ b) ↔ (b.toInt < 0 ∨ 32 ≤ b.toInt) := by
  rw [Int32.lt_iff_toInt_lt, Int32.le_iff_toInt_le]
  rfl

/-- For the operands that it refuses, an operation is a fault of arithmetic. -/
theorem apply_of_refuses (h : op.Refuses a.toInt b.toInt) :
    ∃ c : Fault.Cause, c.kind = .arithmetic ∧ op.apply a b = .error (.fault c) := by
  cases op with
  | div | rem =>
    obtain ⟨c, hc, hcheck⟩ := checkDivision_of_refuses h
    refine ⟨c, hc, ?_⟩
    rw [apply, hcheck]
    rfl
  | shl | shr => exact ⟨_, rfl, if_pos (shift_iff.2 h)⟩
  | add | sub | mul | and | or | xor => exact h.elim

/-- For all other operands, it gives the exact result. -/
theorem apply_of_not_refuses (h : ¬op.Refuses a.toInt b.toInt) :
    ∃ n, op.apply a b = .ok n ∧ op.Exact a.toInt b.toInt n.toInt := by
  cases op with
  | add => exact ⟨_, rfl, (Int32.toInt_add a b).symm ▸ bmod_modEq _⟩
  | sub => exact ⟨_, rfl, (Int32.toInt_sub a b).symm ▸ bmod_modEq _⟩
  | mul => exact ⟨_, rfl, (Int32.toInt_mul a b).symm ▸ bmod_modEq _⟩
  | div => exact ⟨_, divide_of_not_refuses h _, _, divides_int32 h⟩
  | rem => exact ⟨_, divide_of_not_refuses h _, _, divides_int32 h⟩
  | and => exact ⟨_, rfl, testBit_and a b⟩
  | or => exact ⟨_, rfl, testBit_or a b⟩
  | xor => exact ⟨_, rfl, testBit_xor a b⟩
  | shl => exact ⟨_, if_neg (mt shift_iff.1 h), shiftLeft_modEq h⟩
  | shr => exact ⟨_, if_neg (mt shift_iff.1 h), toInt_shiftRight h⟩

end IntOp

/-! ## Instructions -/

namespace Machine

/-- `s` is about to carry out the instruction for an operation on integers, at `k`. -/
structure AtOperation (s : State) (k : Nat) (op : IntOp) : Prop where
  pc : s.frame.pc = k
  code : s.frame.code[k]? = some op.opcode.byte

/-- The step of `s` is a fault of the kind. -/
def FaultsAs (m : Machine) (s : State) (kind : Fault.Kind) : Prop :=
  ∃ (c : Fault.Cause) (t : State), c.kind = kind ∧ m.step s = .error (.fault c) t

/-- Wherever the instruction for an operation finds `a` and `b` on the stack, `b` on top, it
    puts `n` in their place and does nothing else. -/
def Computes (m : Machine) (op : IntOp) (a b n : Int32) : Prop :=
  ∀ s k rest, AtOperation s k op → s.frame.stack = .int b :: .int a :: rest →
    m.step s = .ok none
      ⟨{ s.frame with pc := k + 1, stack := .int n :: rest }, s.callers, s.host, k⟩

/-- Wherever the instruction for an operation finds `a` and `b` on the stack, it is a fault of
    the kind. -/
def Refuses (m : Machine) (op : IntOp) (a b : Int32) (kind : Fault.Kind) : Prop :=
  ∀ s k rest, AtOperation s k op → s.frame.stack = .int b :: .int a :: rest → m.FaultsAs s kind

variable {m : Machine} {op : IntOp} {a b n : Int32} {s : State} {k : Nat}

theorem step_operation (hs : AtOperation s k op) :
    m.step s = (m.perform (.arith op) >>= fun _ => pure none)
      ⟨{ s.frame with pc := k + 1 }, s.callers, s.host, k⟩ := by
  obtain ⟨hk, -⟩ := Array.getElem?_eq_some_iff.1 hs.code
  have hdecode : Instr.decode s.frame = .ok (.arith op) { s.frame with pc := k + 1 } := by
    rw [Instr.decode_of_byte hs.pc hs.code]
    cases op <;> rfl
  rw [step, bind_of_ok (fetchInstr_of_decode hs.pc hk hdecode)]
  rfl

/-- Two integers are taken off the stack, whatever their operation gives then. -/
theorem step_of_ints {rest : List Cell} (hs : AtOperation s k op)
    (hstack : s.frame.stack = .int b :: .int a :: rest) :
    m.step s = match op.apply a b with
      | .ok n => .ok none
        ⟨{ s.frame with pc := k + 1, stack := .int n :: rest }, s.callers, s.host, k⟩
      | .error e => .error e
        ⟨{ s.frame with pc := k + 1, stack := rest }, s.callers, s.host, k⟩ := by
  rw [step_operation hs]
  obtain ⟨⟨func, code, pc, stack, locals⟩, callers, host, last⟩ := s
  obtain rfl : stack = _ := hstack
  cases happly : op.apply a b with
  | ok n =>
    refine bind_of_ok (a := ()) ((bind_of_ok rfl).trans ((bind_of_ok rfl).trans ?_))
    rw [happly]
    rfl
  | error e =>
    refine bind_of_error ((bind_of_ok rfl).trans ((bind_of_ok rfl).trans ?_))
    rw [happly]
    rfl

theorem computes_of_apply (h : op.apply a b = .ok n) : m.Computes op a b n := by
  intro s k rest hs hstack
  rw [step_of_ints hs hstack, h]

theorem refuses_of_apply {c : Fault.Cause} (h : op.apply a b = .error (.fault c)) :
    m.Refuses op a b c.kind := by
  intro s k rest hs hstack
  exact ⟨c, _, rfl, by rw [step_of_ints hs hstack, h]⟩

/-- Without two integers on the stack, a cell is missing or has the wrong tag. -/
theorem faultsAs_internal (hs : AtOperation s k op)
    (hstack : ∀ a b rest, s.frame.stack ≠ .int b :: .int a :: rest) : m.FaultsAs s .internal := by
  rw [FaultsAs, step_operation hs]
  obtain ⟨⟨func, code, pc, stack, locals⟩, callers, host, last⟩ := s
  match stack, hstack with
  | [], _ => exact ⟨_, _, rfl, bind_of_error (bind_of_error rfl)⟩
  | .ptr p :: _, _ => exact ⟨_, _, rfl, bind_of_error (bind_of_error rfl)⟩
  | [.int b], _ => exact ⟨_, _, rfl, bind_of_error ((bind_of_ok rfl).trans (bind_of_error rfl))⟩
  | .int b :: .ptr p :: _, _ =>
    exact ⟨_, _, rfl, bind_of_error ((bind_of_ok rfl).trans (bind_of_error rfl))⟩
  | .int b :: .int a :: rest, hstack => exact absurd rfl (hstack a b rest)

/-- The quotient times the divisor, plus the remainder, is the dividend. -/
theorem exists_division (h : ¬IntOp.div.Refuses a.toInt b.toInt) : ∃ q r p,
    IntOp.Divides a.toInt b.toInt q.toInt r.toInt ∧ m.Computes .div a b q ∧
      m.Computes .mul q b p ∧ m.Computes .rem a b r ∧ m.Computes .add p r a := by
  have hdivides := IntOp.divides_int32 h
  obtain ⟨p, hp, hmul⟩ : ∃ p, IntOp.mul.apply (a / b) b = .ok p ∧ _ :=
    IntOp.apply_of_not_refuses id
  obtain ⟨n, hn, hadd⟩ : ∃ n, IntOp.add.apply p (a % b) = .ok n ∧ _ :=
    IntOp.apply_of_not_refuses id
  have hsum : n.toInt ≡ a.toInt [ZMOD 2 ^ 32] := by
    rw [hdivides.eq]
    exact hadd.trans (hmul.add_right _)
  obtain rfl := IntOp.eq_of_modEq hsum
  exact ⟨_, _, p, hdivides, computes_of_apply (IntOp.divide_of_not_refuses h _),
    computes_of_apply hp, computes_of_apply (IntOp.divide_of_not_refuses h _),
    computes_of_apply hn⟩

/-- The instructions for integers are exact. On two integers, each of them is a fault of
    arithmetic if its operation refuses them, and else it puts the exact result in their
    place. A quotient and a remainder that are put together again by two more instructions
    give the dividend. If a cell is missing or a pointer, the fault is internal. -/
theorem integers_exact (m : Machine) :
    (∀ (op : IntOp) (a b : Int32), if op.Refuses a.toInt b.toInt then m.Refuses op a b .arithmetic
      else ∃ n : Int32, op.Exact a.toInt b.toInt n.toInt ∧ m.Computes op a b n) ∧
    (∀ a b : Int32, ¬IntOp.div.Refuses a.toInt b.toInt → ∃ q r p,
      IntOp.Divides a.toInt b.toInt q.toInt r.toInt ∧ m.Computes .div a b q ∧
        m.Computes .mul q b p ∧ m.Computes .rem a b r ∧ m.Computes .add p r a) ∧
    ∀ (op : IntOp) (s : State) (k : Nat), AtOperation s k op →
      (∀ a b rest, s.frame.stack ≠ .int b :: .int a :: rest) → m.FaultsAs s .internal := by
  refine ⟨fun op a b => ?_, fun a b => exists_division, fun op s k => faultsAs_internal⟩
  split
  · obtain ⟨c, hc, happly⟩ := IntOp.apply_of_refuses ‹_›
    rw [← hc]
    exact refuses_of_apply happly
  · obtain ⟨n, hn, hexact⟩ := IntOp.apply_of_not_refuses ‹_›
    exact ⟨n, hexact, computes_of_apply hn⟩

/-- A machine without a program. -/
def blank : Machine where
  program := {}
  natives := #[]

/-- A state that is about to carry out an operation, with the cells on its stack. -/
def operating (op : IntOp) (stack : List Cell) : State where
  frame := ⟨0, #[op.opcode.byte], 0, stack, #[]⟩
  callers := .empty
  host := ⟨Heap.empty, {}⟩
  last := 0

/-- -7 divided by 2 is -3, and leaves -1. The least integer is not divided by -1, and nothing
    is shifted by an address. -/
theorem integers_exact_negative :
    (∃ t, blank.step (operating .div [.int 2, .int (-7)]) = .ok none t ∧
      t.frame.stack = [.int (-3)]) ∧
    (∃ t, blank.step (operating .rem [.int 2, .int (-7)]) = .ok none t ∧
      t.frame.stack = [.int (-1)]) ∧
    blank.FaultsAs (operating .div [.int (-1), .int (-2147483648)]) .arithmetic ∧
    blank.FaultsAs (operating .shl [.ptr 8, .int 1]) .internal := by
  obtain ⟨hexact, hdivision, hinternal⟩ := integers_exact blank
  have hat (op : IntOp) (stack : List Cell) : AtOperation (operating op stack) 0 op := ⟨rfl, rfl⟩
  obtain ⟨q, r, p, hdivides, hdiv, -, hrem, -⟩ := hdivision (-7) 2 (by decide)
  obtain ⟨heq, hsmall, hsign⟩ := hdivides
  have hseven : (-7 : Int32).toInt = -7 := rfl
  have htwo : (2 : Int32).toInt = 2 := rfl
  rw [hseven, htwo] at heq
  rw [htwo] at hsmall
  have hneg : r.toInt < 0 := by
    rcases hsign with hzero | hsign
    · omega
    · exact Int.sign_eq_neg_one_iff_neg.1 hsign
  obtain rfl : r = -1 := Int32.toInt_inj.1 (by change r.toInt = -1; omega)
  obtain rfl : q = -3 := Int32.toInt_inj.1 (by change q.toInt = -3; omega)
  have hover := hexact .div (-2147483648) (-1)
  rw [if_pos (by decide)] at hover
  exact ⟨⟨_, hdiv _ 0 [] (hat _ _) rfl, rfl⟩, ⟨_, hrem _ 0 [] (hat _ _) rfl, rfl⟩,
    hover _ 0 [] (hat _ _) rfl, hinternal .shl _ 0 (hat _ _) (by rintro _ _ _ ⟨⟩)⟩

end Machine

end CZero
