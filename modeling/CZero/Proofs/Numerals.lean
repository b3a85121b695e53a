import CZero.Proofs.Program.HexText
import CZero.Proofs.Tokens
import Mathlib.Data.Nat.Digits.Defs

/-!
# Numerals

A numeral of a base is one or more of its digits, with at most one sign in front of them
(`Text.Spells`). A byte string is a numeral of one number only, and what is read in it is
this number (`Text.integer?_eq_some_iff`), as far as it is an `int` (`Text.int32?_eq_some_iff`).

What is printed is a numeral of what was to be printed: a decimal one of the integer
(`Text.spells_decimal`), or a hexadecimal one of its 32 bits (`Text.spells_zeroPad_upperHex`).
So what is read in it is what was printed (`Library.numerals_roundTrip`).
-/

namespace CZero

open CZero.Action

namespace Text

variable {base acc d n : Nat} {v v' : Int} {b : UInt8} {w : Bytes} {ds : List Nat}

/-! ## Digits -/

/-- The digits of all bases in order, with small letters. -/
def smallDigits : Bytes :=
  utf8 "0123456789abcdefghijklmnopqrstuvwxyz"

/-- The digits of all bases in order, with capital letters. -/
def capitalDigits : Bytes :=
  utf8 "0123456789ABCDEFGHIJKLMNOPQRSTUVWXYZ"

/-- The byte is the digit `d`. -/
def IsDigit (d : Nat) (b : UInt8) : Prop :=
  smallDigits[d]? = some b ∨ capitalDigits[d]? = some b

instance : DecidableRel IsDigit :=
  fun _ _ => inferInstanceAs (Decidable (_ ∨ _))

theorem IsDigit.lt (h : IsDigit d b) : d < 36 := by
  rcases h with h | h <;> exact (List.getElem?_eq_some_iff.1 h).1

theorem digitValue?_eq_some_iff : digitValue? b = some d ↔ IsDigit d b := by
  constructor
  · intro h
    have hall : (digitValue? b).all fun d => IsDigit d b :=
      HexText.forall_byte b (by decide +kernel)
    rw [h] at hall
    exact of_decide_eq_true hall
  · have hsmall : ∀ d < 36, smallDigits[d]?.bind digitValue? = some d := by decide +kernel
    have hcapital : ∀ d < 36, capitalDigits[d]?.bind digitValue? = some d := by decide +kernel
    intro h
    have hlt := h.lt
    rcases h with h | h
    · have hd := hsmall d hlt
      rwa [h] at hd
    · have hd := hcapital d hlt
      rwa [h] at hd

theorem digit?_eq_some_iff : digit? base b = some d ↔ d < base ∧ IsDigit d b := by
  rw [digit?, Option.filter_eq_some_iff, digitValue?_eq_some_iff, decide_eq_true_eq, and_comm]

theorem IsDigit.upperByte (h : IsDigit d b) : IsDigit d (upperByte b) := by
  have hall : ∀ d < 36, ∀ b ∈ smallDigits[d]?.toList ++ capitalDigits[d]?.toList,
      IsDigit d (CZero.upperByte b) := by decide +kernel
  refine hall d h.lt b (List.mem_append.2 ?_)
  rwa [Option.mem_toList, Option.mem_toList]

/-- Digits are neither signs nor NUL. -/
theorem IsDigit.ne (h : IsDigit d b) : b ≠ 0x2B ∧ b ≠ 0x2D ∧ b ≠ 0 := by
  rw [← digitValue?_eq_some_iff] at h
  refine ⟨?_, ?_, ?_⟩ <;>
    · rintro rfl
      revert h
      exact nofun

/-! ## Numerals without a sign -/

/-- The byte string is the digits `ds` of the base. -/
def Digits (base : Nat) (ds : List Nat) (w : Bytes) : Prop :=
  List.Forall₂ (fun d b => d < base ∧ IsDigit d b) ds w

/-- The number of the digits `ds`, the first of which is the highest. -/
def numberOf (base : Nat) (ds : List Nat) : Nat :=
  Nat.ofDigits base ds.reverse

theorem numberOf_cons (base d : Nat) (ds : List Nat) :
    numberOf base (d :: ds) = d * base ^ ds.length + numberOf base ds := by
  rw [numberOf, Nat.ofDigits_reverse_cons, Nat.add_comm, Nat.mul_comm, numberOf]

theorem numberOf_concat (base d : Nat) (ds : List Nat) :
    numberOf base (ds ++ [d]) = numberOf base ds * base + d := by
  rw [numberOf, List.reverse_concat, Nat.ofDigits_cons, Nat.add_comm, Nat.mul_comm, numberOf]

/-- Reading goes on from the digits read before, whose number is `acc`. -/
theorem digitsValue?_eq_some_iff : digitsValue? base acc w = some n ↔
    ∃ ds, Digits base ds w ∧ n = acc * base ^ ds.length + numberOf base ds := by
  induction w generalizing acc with
  | nil =>
    simp only [digitsValue?, Digits, List.forall₂_nil_right_iff, exists_eq_left]
    simp [numberOf, eq_comm]
  | cons b w ih =>
    rw [digitsValue?]
    constructor
    · intro h
      cases hd : digit? base b with
      | none =>
        rw [hd] at h
        cases h
      | some d =>
        rw [hd] at h
        obtain ⟨ds, hds, rfl⟩ := ih.1 h
        refine ⟨d :: ds, .cons (digit?_eq_some_iff.1 hd) hds, ?_⟩
        rw [numberOf_cons, List.length_cons, pow_succ]
        ring
    · rintro ⟨_, hds, rfl⟩
      obtain ⟨d, ds, hd, htail, rfl⟩ := List.forall₂_cons_right_iff.1 hds
      rw [digit?_eq_some_iff.2 hd]
      refine ih.2 ⟨ds, htail, ?_⟩
      rw [numberOf_cons, List.length_cons, pow_succ]
      ring

theorem natural?_eq_some_iff : natural? base w = some n ↔
    ∃ ds, ds ≠ [] ∧ Digits base ds w ∧ n = numberOf base ds := by
  cases w with
  | nil => simp [natural?, Digits, List.forall₂_nil_right_iff]
  | cons b w =>
    simp only [natural?, List.isEmpty_cons, Bool.false_eq_true, if_false,
      digitsValue?_eq_some_iff, Nat.zero_mul, Nat.zero_add]
    refine exists_congr fun ds => (and_iff_right_of_imp ?_).symm
    rintro ⟨hds, -⟩ rfl
    cases hds

theorem Digits.natural? (h : Digits base ds w) (hne : ds ≠ []) :
    natural? base w = some (numberOf base ds) :=
  natural?_eq_some_iff.2 ⟨ds, hne, h, rfl⟩

/-! ## Numerals -/

/-- The byte string is a numeral of the integer: digits of the base, at least one, with at
    most one sign. -/
inductive Spells (base : Nat) : Int → Bytes → Prop
  | unsigned {ds : List Nat} {w : Bytes} : ds ≠ [] → Digits base ds w →
    Spells base (numberOf base ds) w
  | plus {ds : List Nat} {w : Bytes} : ds ≠ [] → Digits base ds w →
    Spells base (numberOf base ds) (utf8 "+" ++ w)
  | minus {ds : List Nat} {w : Bytes} : ds ≠ [] → Digits base ds w →
    Spells base (-(numberOf base ds : Int)) (utf8 "-" ++ w)

theorem integer?_plus (base : Nat) (w : Bytes) :
    integer? base (utf8 "+" ++ w) = (natural? base w).map Int.ofNat :=
  rfl

theorem integer?_minus (base : Nat) (w : Bytes) :
    integer? base (utf8 "-" ++ w) = (natural? base w).map fun n => -Int.ofNat n := by
  have hread : integer? base (utf8 "-" ++ w) =
      (natural? base w >>= fun n => pure (n : Int)).map (-·) := rfl
  rw [hread]
  cases natural? base w <;> rfl

/-- What is read is what is spelled. -/
theorem integer?_eq_some_iff : integer? base w = some v ↔ Spells base v w := by
  constructor
  · intro h
    cases w with
    | nil => cases h
    | cons b w =>
      by_cases hplus : b = 0x2B
      · subst b
        obtain ⟨n, hn, rfl⟩ := Option.map_eq_some_iff.1 ((integer?_plus base w).symm.trans h)
        obtain ⟨ds, hne, hds, rfl⟩ := natural?_eq_some_iff.1 hn
        exact .plus hne hds
      by_cases hminus : b = 0x2D
      · subst b
        obtain ⟨n, hn, rfl⟩ := Option.map_eq_some_iff.1 ((integer?_minus base w).symm.trans h)
        obtain ⟨ds, hne, hds, rfl⟩ := natural?_eq_some_iff.1 hn
        exact .minus hne hds
      · rw [integer?, if_neg hplus, if_neg hminus] at h
        obtain ⟨n, hn, rfl⟩ := Option.map_eq_some_iff.1 h
        obtain ⟨ds, hne, hds, rfl⟩ := natural?_eq_some_iff.1 hn
        exact .unsigned hne hds
  · intro h
    cases h with
    | @unsigned ds w hne hds =>
      obtain ⟨d, ds, rfl⟩ := List.exists_cons_of_ne_nil hne
      obtain ⟨b, w, hd, -, rfl⟩ := List.forall₂_cons_left_iff.1 hds
      -- The first byte is a digit and so no sign.
      rw [integer?, if_neg hd.2.ne.1, if_neg hd.2.ne.2.1, hds.natural? hne]
      rfl
    | @plus ds w hne hds =>
      rw [integer?_plus, hds.natural? hne]
      rfl
    | @minus ds w hne hds =>
      rw [integer?_minus, hds.natural? hne]
      rfl

/-- A numeral has one value. -/
theorem Spells.unique (h : Spells base v w) (h' : Spells base v' w) : v = v' :=
  Option.some.inj ((integer?_eq_some_iff.2 h).symm.trans (integer?_eq_some_iff.2 h'))

theorem int32?_eq_some_iff {n : Int32} : int32? base w = some n ↔ Spells base n.toInt w := by
  have hlo := n.le_toInt
  have hhi := n.toInt_lt
  rw [← integer?_eq_some_iff, int32?, Option.map_eq_some_iff]
  constructor
  · rintro ⟨v, hv, rfl⟩
    obtain ⟨hread, hfits⟩ := Option.filter_eq_some_iff.1 hv
    have hfits := of_decide_eq_true hfits
    rw [hread, Int32.toInt_ofInt_of_le hfits.1 hfits.2]
  · intro h
    refine ⟨n.toInt, Option.filter_eq_some_iff.2 ⟨h, decide_eq_true ⟨hlo, hhi⟩⟩, ?_⟩
    exact Int32.ofInt_toInt n

/-! ## Printing -/

theorem isDigit_digitChar (hd : d < 16) : IsDigit d (Nat.digitChar d).toUInt8 := by
  have hall : ∀ d < 16, IsDigit d (Nat.digitChar d).toUInt8 := by decide +kernel
  exact hall d hd

/-- A printed number is digits of this number. -/
theorem exists_digits_numeral (hlo : 1 < base) (hhi : base ≤ 16) (n : Nat) :
    ∃ ds, ds ≠ [] ∧ Digits base ds (numeral base n) ∧ numberOf base ds = n := by
  induction n using Nat.strongRecOn with
  | ind n ih =>
    have hlast (d : Nat) (hd : d < base) : Digits base [d] [(Nat.digitChar d).toUInt8] :=
      .cons ⟨hd, isDigit_digitChar (by omega)⟩ .nil
    by_cases hn : n < base
    · refine ⟨[n], List.cons_ne_nil _ _, ?_, Nat.ofDigits_singleton⟩
      rw [numeral, Nat.toDigits_of_lt_base hn]
      exact hlast n hn
    · obtain ⟨ds, -, hds, hvalue⟩ := ih (n / base) (Nat.div_lt_self (by omega) hlo)
      refine ⟨ds ++ [n % base], List.append_ne_nil_of_right_ne_nil _ (List.cons_ne_nil _ _), ?_, ?_⟩
      · rw [numeral, Nat.toDigits_of_base_le hlo (by omega), List.map_append]
        exact List.rel_append hds (hlast _ (Nat.mod_lt _ (by omega)))
      · rw [numberOf_concat, hvalue, Nat.div_add_mod']

/-- A decimal numeral is a numeral of its number. -/
theorem spells_decimal (v : Int) : Spells 10 v (decimal v) := by
  cases v with
  | ofNat n =>
    obtain ⟨ds, hne, hds, hvalue⟩ := exists_digits_numeral (by decide : 1 < 10) (by decide) n
    have hspells := Spells.unsigned hne hds
    rwa [hvalue] at hspells
  | negSucc n =>
    obtain ⟨ds, hne, hds, hvalue⟩ :=
      exists_digits_numeral (by decide : 1 < 10) (by decide) (n + 1)
    have hspells := Spells.minus hne hds
    rwa [hvalue] at hspells

theorem Digits.upper (h : Digits base ds w) : Digits base ds (w.map upperByte) :=
  List.forall₂_map_right_iff.2 (h.imp fun _ _ hd => ⟨hd.1, hd.2.upperByte⟩)

/-- Zeros in front of a numeral do not change its number. -/
theorem Digits.zeroPad (hbase : 0 < base) (h : Digits base ds w) (width : Nat) :
    Digits base (List.replicate (width - w.length) 0 ++ ds) (zeroPad width w) ∧
      numberOf base (List.replicate (width - w.length) 0 ++ ds) = numberOf base ds := by
  constructor
  · refine List.rel_append ?_ h
    rw [List.forall₂_iff_get]
    refine ⟨by simp, fun i _ _ => ?_⟩
    rw [List.get_eq_getElem, List.get_eq_getElem, List.getElem_replicate, List.getElem_replicate]
    exact ⟨hbase, .inl rfl⟩
  · rw [numberOf, List.reverse_append, List.reverse_replicate,
      Nat.ofDigits_append_replicate_zero, numberOf]

/-- A padded hexadecimal numeral is a numeral of its number. -/
theorem spells_zeroPad_upperHex (width n : Nat) : Spells 16 n (zeroPad width (upperHex n)) := by
  obtain ⟨ds, hne, hds, hvalue⟩ := exists_digits_numeral (by decide : 1 < 16) (by decide) n
  obtain ⟨hpadded, hsame⟩ := hds.upper.zeroPad (by decide) width
  have hspells := Spells.unsigned (List.append_ne_nil_of_right_ne_nil _ hne) hpadded
  rwa [hsame, hvalue] at hspells

/-- Numerals have no NUL. -/
theorem Spells.notMem (h : Spells base v w) : 0 ∉ w := by
  have hdigits {ds : List Nat} {w : Bytes} (hds : Digits base ds w) : 0 ∉ w := by
    induction hds with
    | nil => exact List.not_mem_nil
    | cons hd _ ih => exact List.not_mem_cons_of_ne_of_not_mem hd.2.ne.2.2.symm ih
  cases h with
  | unsigned _ hds => exact hdigits hds
  | plus _ hds => exact List.not_mem_cons_of_ne_of_not_mem (by decide) (hdigits hds)
  | minus _ hds => exact List.not_mem_cons_of_ne_of_not_mem (by decide) (hdigits hds)

end Text

namespace Library

open Native

variable {s t u : Host} {p q : Addr} {text w : Bytes} {b n m : Int32}

/-! ## Integers in new cells -/

/-- The action gives back a new cell that holds the integer, behind everything that the heap
    has, and leaves the console as it is. -/
def Boxes (x : Action Host Cell) (s : Host) (n : Int32) : Prop :=
  ∃ p h, x s = .ok (.ptr p) ⟨h, s.console⟩ ∧ s.heap.Fresh p ∧ s.heap.Extends h ∧
    h.loadInt p = .ok n

theorem boxInt_boxes (hs : s.heap.Unlimited) (n : Int32) :
    Boxes (returning (Heap.boxInt n)) s n := by
  have hplaced := hs.reached.placed
  have hbox := (Heap.boxInt_endsIn hplaced hs.size n).mono (fun _ _ => id)
    fun _ _ hrefused => Int.not_lt.2 hs.limit hrefused.2.2
  obtain ⟨_, h, ⟨rfl, hextends, hload⟩, hok⟩ := hbox.exists_eq_ok
  exact ⟨_, h, bind_of_ok (Host.onHeap_eq_ok.2 ⟨h, hok, rfl⟩),
    Heap.fresh_addrOf_size hplaced hs.size, hextends, hload⟩

/-- A cell holds one integer. -/
theorem Boxes.unique {x : Action Host Cell} (hn : Boxes x s n) (hm : Boxes x s m) : n = m := by
  obtain ⟨p, h, hx, -, -, hload⟩ := hn
  obtain ⟨q, k, hx', -, -, hload'⟩ := hm
  cases hx.symm.trans hx'
  cases hload.symm.trans hload'
  rfl

/-- A new cell is not at the null pointer. -/
theorem Boxes.ne_null {x : Action Host Cell} (hs : s.heap.Unlimited) (hn : Boxes x s n) :
    x s ≠ .ok .null s := by
  obtain ⟨p, h, hx, hfresh, -⟩ := hn
  have hne : p ≠ Addr.null :=
    Heap.ne_null_of_le (Nat.le_trans hs.reached.placed.reserved hfresh.beyond)
  rw [hx]
  intro heq
  injection heq with hcell
  injection hcell with hnull
  exact hne hnull

/-! ## Reading numerals -/

theorem parseInt_of_spells (hs : s.heap.Unlimited) (hp : stringAt p s.heap = .ok text)
    (hb : 2 ≤ b ∧ b ≤ 36) (hn : Text.Spells b.toInt.toNat n.toInt text) :
    Boxes (call "parse_int" [.ptr p, .int b]) s n := by
  obtain ⟨q, h, hq, hbox⟩ := boxInt_boxes hs n
  have hcall : call "parse_int" [.ptr p, .int b] s = _ := inBase_eq hp hb
  refine ⟨q, h, hcall.trans ?_, hbox⟩
  simp only [Text.int32?_eq_some_iff.2 hn]
  exact hq

theorem parseInt_of_not_spells (hp : stringAt p s.heap = .ok text) (hb : 2 ≤ b ∧ b ≤ 36)
    (hn : ∀ n : Int32, ¬Text.Spells b.toInt.toNat n.toInt text) :
    call "parse_int" [.ptr p, .int b] s = .ok .null s := by
  have hcall : call "parse_int" [.ptr p, .int b] s = _ := inBase_eq hp hb
  have hnone : Text.int32? b.toInt.toNat text = none :=
    Option.eq_none_iff_forall_ne_some.2 fun n h => hn n (Text.int32?_eq_some_iff.1 h)
  rw [hcall]
  simp only [hnone]
  rfl

/-- What is read in a string depends on what it spells, and on nothing else. -/
structure ReadsNumeral (s : Host) (p : Addr) (b : Int32) (text : Bytes) : Prop where
  boxes_iff : ∀ n : Int32, Boxes (call "parse_int" [.ptr p, .int b]) s n ↔
    Text.Spells b.toInt.toNat n.toInt text
  null_iff : call "parse_int" [.ptr p, .int b] s = .ok .null s ↔
    ∀ n : Int32, ¬Text.Spells b.toInt.toNat n.toInt text

theorem readsNumeral (hs : s.heap.Unlimited) (hp : stringAt p s.heap = .ok text)
    (hb : 2 ≤ b ∧ b ≤ 36) : ReadsNumeral s p b text := by
  have hnull (h : call "parse_int" [.ptr p, .int b] s = .ok .null s) (n : Int32)
      (hn : Text.Spells b.toInt.toNat n.toInt text) : False :=
    (parseInt_of_spells hs hp hb hn).ne_null hs h
  refine ⟨fun n => ⟨fun hn => ?_, parseInt_of_spells hs hp hb⟩,
    hnull, parseInt_of_not_spells hp hb⟩
  by_contra hnot
  by_cases hsome : ∃ m : Int32, Text.Spells b.toInt.toNat m.toInt text
  · obtain ⟨m, hm⟩ := hsome
    rw [hn.unique (parseInt_of_spells hs hp hb hm)] at hnot
    exact hnot hm
  · exact hn.ne_null hs (parseInt_of_not_spells hp hb (not_exists.1 hsome))

/-! ## Reading what was printed -/

theorem stringFromInt_givesString (hs : s.heap.Unlimited) (n : Int32) :
    GivesString (call "string_fromint" [.int n]) s (decimal n.toInt) := by
  obtain ⟨p, t, hp, hread⟩ := givesString_of_notMem hs (Text.spells_decimal n.toInt).notMem
  exact ⟨p, t, hp, hread⟩

theorem hexDigits_givesString (hs : s.heap.Unlimited) (n : Int32) :
    GivesString (call "int2hex" [.int n]) s (zeroPad 8 (upperHex n.toUInt32.toNat)) := by
  obtain ⟨p, t, hp, hread⟩ :=
    givesString_of_notMem hs (Text.spells_zeroPad_upperHex 8 n.toUInt32.toNat).notMem
  exact ⟨p, t, hp, hread⟩

/-- A string that was given back is read, after all later calls, as it was then. -/
theorem stringAt_of_calls {name : String} {f : Native} {args : List Cell}
    (hf : find? name = some f) (hcall : call name args s = .ok (.ptr p) t)
    (hs : s.heap.Unlimited) (hread : stringAt p t.heap = .ok text)
    (hcalls : Relation.ReflTransGen Called t u) (hu : u.heap.size < 2 ^ 63) :
    u.heap.Unlimited ∧ stringAt p u.heap = .ok text := by
  have ht := Nat.lt_of_le_of_lt (evolves_of_calls hcalls).size_le hu
  obtain ⟨ht, -⟩ := extend_of_ok hf hcall hs ht
  obtain ⟨hu, hextends⟩ := extend_of_calls hcalls ht hu
  exact ⟨hu, stringAt_of_extends hextends hread⟩

/-- The unsigned value of an integer of 32 bits. -/
theorem toNat_toUInt32_cases (n : Int32) :
    0 ≤ n ∧ (n.toUInt32.toNat : Int) = n.toInt ∨ ¬0 ≤ n ∧ 2 ^ 31 ≤ (n.toUInt32.toNat : Int) := by
  have hcond : n.toInt = if 2 * n.toUInt32.toNat < 2 ^ 32 then (n.toUInt32.toNat : Int)
      else n.toUInt32.toNat - (2 ^ 32 : Nat) := BitVec.toInt_eq_toNat_cond n.toBitVec
  have hlt := n.toUInt32.toNat_lt
  rw [Int32.le_iff_toInt_le, Int32.toInt_zero]
  split at hcond <;> omega

/-- Numerals are read and printed, in a heap without a limit, as the same integers.

    * In a string, in a base from 2 to 36, a new cell with the integer `n` is given just if
      the string is a numeral of `n`: at least one digit of the base, letters of either
      case, with at most one sign in front. If it is a numeral of no `int`, the null pointer
      is given, and only then.
    * In the decimal numeral of an integer this integer is read, then and after all later
      calls of functions.
    * So integers with the same decimal numeral are equal.
    * In the hexadecimal digits of an integer it is read if it is not negative; if it is,
      the null pointer is given. -/
theorem numerals_roundTrip (hs : s.heap.Unlimited) :
    (∀ p text, stringAt p s.heap = .ok text → ∀ b : Int32, 2 ≤ b ∧ b ≤ 36 →
      ReadsNumeral s p b text) ∧
    (∀ n : Int32, ∃ p t, call "string_fromint" [.int n] s = .ok (.ptr p) t ∧
      ∀ u, Relation.ReflTransGen Called t u → u.heap.size < 2 ^ 63 →
        Boxes (call "parse_int" [.ptr p, .int 10]) u n) ∧
    (∀ (t : Host) (n m : Int32) (w : Bytes), t.heap.Unlimited →
      GivesString (call "string_fromint" [.int n]) s w →
      GivesString (call "string_fromint" [.int m]) t w → n = m) ∧
    ∀ n : Int32, ∃ p t, call "int2hex" [.int n] s = .ok (.ptr p) t ∧
      ∀ u, Relation.ReflTransGen Called t u → u.heap.size < 2 ^ 63 →
        if 0 ≤ n then Boxes (call "parse_int" [.ptr p, .int 16]) u n
        else call "parse_int" [.ptr p, .int 16] u = .ok .null u := by
  have hprinted {s : Host} (hs : s.heap.Unlimited) {n : Int32} {w : Bytes}
      (hw : GivesString (call "string_fromint" [.int n]) s w) : w = decimal n.toInt := by
    obtain ⟨p, t, hp, hread⟩ := hw
    obtain ⟨q, u, hq, hread'⟩ := stringFromInt_givesString hs n
    cases hp.symm.trans hq
    cases hread.symm.trans hread'
    rfl
  refine ⟨fun p text hp b hb => readsNumeral hs hp hb, fun n => ?_, fun t n m w ht hn hm => ?_,
    fun n => ?_⟩
  · obtain ⟨p, t, hp, hread⟩ := stringFromInt_givesString hs n
    refine ⟨p, t, hp, fun u hcalls hu => ?_⟩
    obtain ⟨hu, hread⟩ := stringAt_of_calls rfl hp hs hread hcalls hu
    exact parseInt_of_spells hu hread (by decide) (Text.spells_decimal n.toInt)
  · have hspells := Text.spells_decimal n.toInt
    rw [← hprinted hs hn, hprinted ht hm] at hspells
    exact Int32.toInt_inj.1 (hspells.unique (Text.spells_decimal m.toInt))
  · obtain ⟨p, t, hp, hread⟩ := hexDigits_givesString hs n
    refine ⟨p, t, hp, fun u hcalls hu => ?_⟩
    obtain ⟨hu, hread⟩ := stringAt_of_calls rfl hp hs hread hcalls hu
    have hspells := Text.spells_zeroPad_upperHex 8 n.toUInt32.toNat
    rcases toNat_toUInt32_cases n with ⟨hn, hvalue⟩ | ⟨hn, hvalue⟩
    · rw [if_pos hn]
      rw [hvalue] at hspells
      exact parseInt_of_spells hu hread (by decide) hspells
    · rw [if_neg hn]
      refine parseInt_of_not_spells hread (by decide) fun m hm => ?_
      -- The digits are those of a number that is no `int`.
      have hlt := m.toInt_lt
      have hsame := hspells.unique hm
      omega

/-- A heap with two numerals: the least integer, and the one before it. -/
def endNumerals : Heap :=
  final (Heap.mapReadOnly (utf8 "-0080000000" ++ [0] ++ utf8 "-80000001" ++ [0])) .empty

theorem numerals_roundTrip_endNumerals :
    endNumerals.Unlimited ∧ stringAt 8 endNumerals = .ok (utf8 "-0080000000") ∧
      Boxes (call "parse_int" [.ptr 8, .int 16]) ⟨endNumerals, {}⟩ (-0x80000000) ∧
      stringAt 20 endNumerals = .ok (utf8 "-80000001") ∧
      call "parse_int" [.ptr 20, .int 16] ⟨endNumerals, {}⟩ = .ok .null ⟨endNumerals, {}⟩ ∧
      ∃ p t, call "string_fromint" [.int (-0x80000000)] ⟨endNumerals, {}⟩ = .ok (.ptr p) t ∧
        t.heap.size < 2 ^ 63 ∧
        Boxes (call "parse_int" [.ptr p, .int 10]) t (-0x80000000) := by
  have hs : endNumerals.Unlimited :=
    { reached := .mapReadOnly _ .empty, limit := by decide, size := by decide +kernel }
  have hp : stringAt 8 endNumerals = .ok (utf8 "-0080000000") := by decide +kernel
  have hq : stringAt 20 endNumerals = .ok (utf8 "-80000001") := by decide +kernel
  obtain ⟨hreads, hdecimal, -, -⟩ := numerals_roundTrip (s := ⟨endNumerals, {}⟩) hs
  have hleast := (hreads 8 _ hp 16 (by decide)).boxes_iff (-0x80000000)
  have hbefore := (hreads 20 _ hq 16 (by decide)).null_iff
  obtain ⟨p, t, ht, hread⟩ := hdecimal (-0x80000000)
  have hsize : (final (call "string_fromint" [.int (-0x80000000)])
      ⟨endNumerals, {}⟩).heap.size < 2 ^ 63 := by decide +kernel
  rw [final, ht] at hsize
  refine ⟨hs, hp, hleast.2 (Text.integer?_eq_some_iff.1 (by decide +kernel)), hq,
    hbefore.2 fun n hn => ?_, p, t, ht, hsize, hread t .refl hsize⟩
  have hvalue : Text.Spells 16 (-0x80000001) (utf8 "-80000001") :=
    Text.integer?_eq_some_iff.1 (by decide +kernel)
  have hlo := n.le_toInt
  have hsame := hvalue.unique hn
  omega

end Library

end CZero
