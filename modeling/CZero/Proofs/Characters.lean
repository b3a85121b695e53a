import CZero.Proofs.Cells
import CZero.Proofs.CharArrays

/-!
# Characters are bytes, with and without a sign

A character of a string is one byte. A program can ask for it by its index, load it from its
place in memory, or load it from the array of characters that has been made of the string
(`CharReads`). The first takes the byte as a number from 0 to 255, the others extend its
sign. So the three agree about ASCII characters only; for the others, the first gives 256
more (`characters_extended`).

The other way, a character becomes a string of its low byte, whatever the other bytes are
(`fromChar_lowByte`). The only character that is refused is 0, but all multiples of 256 have
the same low byte, and become empty strings.
-/

namespace CZero

open CZero.Action

namespace Heap

variable {h : Heap} {p : Addr} {text : Bytes} {b : UInt8}

/-! ## Bytes and their signs -/

/-- A byte without its sign. -/
theorem toInt_ofNat_toNat (b : UInt8) : (Int32.ofNat b.toNat).toInt = b.toNat := by
  have hlt := b.toNat_lt
  exact Int32.toInt_ofNat_of_lt (by omega)

/-- The low byte of an integer. -/
theorem toNat_lowByte (n : Int32) : (n.toUInt32.toUInt8.toNat : Int) = n.toInt % 256 := by
  have hn : n.toInt = Int.bmod n.toUInt32.toNat (2 ^ 32) := BitVec.toInt_eq_toNat_bmod n.toBitVec
  have hbyte : n.toUInt32.toUInt8.toNat = n.toUInt32.toNat % 2 ^ 8 := UInt32.toNat_toUInt8 _
  rw [hn, hbyte, Int.bmod]
  split <;> omega

/-! ## Loads -/

/-- A byte that is there is loaded with its sign. -/
theorem loadCell_of_loadByte (hb : h.loadByte p = .ok b) :
    Machine.loadCell .char p h = .ok (.int b.toInt8.toInt32) := by
  rw [Machine.loadCell, loadChar, hb]
  rfl

/-- The bytes of a string are behind its address. -/
theorem loadByte_of_loadString (hsize : h.size < 2 ^ 63) (hp : h.loadString p = .ok text) {i : Nat}
    (hb : text[i]? = some b) : h.loadByte (p + addrOf i) = .ok b := by
  obtain ⟨hlo, -, hholds⟩ := loadString_eq_ok_iff_holdsAt.1 hp
  obtain ⟨hi, -⟩ := List.getElem?_eq_some_iff.1 hb
  have hbyte : h.mem[p.toNat + i]? = some b := by
    rw [hholds i (by rw [List.length_append]; omega), List.getElem?_append_left hi, hb]
  have hlt : p.toNat + i < h.size := (Array.getElem?_eq_some_iff.1 hbyte).1
  have haddr : (p + addrOf i).toNat = p.toNat + i := by
    rw [UInt64.toNat_add, toNat_addrOf (by omega), Nat.mod_eq_of_lt (by omega)]
  refine loadByte_of_getElem? ?_ ?_ <;> rw [haddr]
  · exact Nat.le_add_right_of_le hlo
  · exact hbyte

end Heap

/-- The instruction that loads a character puts `n` in the place of the address `p`. -/
def Machine.LoadsChar (m : Machine) (h : Heap) (p : Addr) (n : Int32) : Prop :=
  ∀ (s : State) (rest : List Cell), s.host.heap = h → s.frame.stack = .ptr p :: rest →
    m.perform (.load .char) s = .ok ()
      { s with frame := { s.frame with stack := .int n :: rest } }

theorem Machine.loadsChar_of_loadByte {m : Machine} {h : Heap} {p : Addr} {b : UInt8}
    (hb : h.loadByte p = .ok b) : m.LoadsChar h p b.toInt8.toInt32 := by
  rintro s rest rfl hstack
  exact Machine.perform_load hstack (Heap.loadCell_of_loadByte hb)

namespace Library

open Native

variable {m : Machine} {s t : Host} {p : Addr} {text : Bytes} {i : Int32} {b : UInt8}

/-! ## The characters of a string -/

/-- The byte `b` is the character `i` of the string at `p`, for which a program asks in three
    ways. -/
structure CharReads (m : Machine) (s : Host) (p : Addr) (text : Bytes) (i : Int32) (b : UInt8) :
    Prop where
  /-- By its index. -/
  index : call "string_charat" [.ptr p, .int i] s = .ok (.int (Int32.ofNat b.toNat)) s
  /-- By its address. -/
  address : m.LoadsChar s.heap (p + Heap.addrOf i.toInt.toNat) b.toInt8.toInt32
  /-- As an element of an array, if the string is not too long for one. -/
  element : text.length + 1 < 2 ^ 31 →
    ∃ a t, call "string_to_chararray" [.ptr p] s = .ok (.ptr a) t ∧
      ∃ q, t.heap.arrayElement a i = .ok q ∧ m.LoadsChar t.heap q b.toInt8.toInt32
  /-- Else the array is a fault of memory. -/
  noElement : 2 ^ 31 ≤ text.length + 1 →
    ∃ e t, call "string_to_chararray" [.ptr p] s = .error e t ∧ e.IsMemoryFault

theorem charReads (hs : s.heap.Unlimited) (hp : stringAt p s.heap = .ok text) (hi : 0 ≤ i)
    (hb : text[i.toInt.toNat]? = some b) : CharReads m s p text i b where
  index := by
    obtain ⟨hlt, -⟩ := List.getElem?_eq_some_iff.1 hb
    obtain ⟨x, hx, hcall⟩ := stringCharAt_eq hp (Heap.nonneg_iff_toInt.1 hi) (by omega)
    cases hb.symm.trans hx
    exact hcall
  address := by
    have hload : s.heap.loadString p = .ok text := by
      rw [stringAt] at hp
      split at hp
      · -- The null pointer has no characters.
        cases hp
        cases hb
      · exact hp
    exact Machine.loadsChar_of_loadByte (Heap.loadByte_of_loadString hs.size hload hb)
  element hlength := by
    obtain ⟨a, t, hcall, harray⟩ := stringToCharArray_hasArray hs hp hlength
    refine ⟨a, t, hcall, ?_⟩
    obtain ⟨hlt, -⟩ := List.getElem?_eq_some_iff.1 hb
    have hb' : (text ++ [0])[i.toInt.toNat]? = some b := by
      rw [List.getElem?_append_left hlt, hb]
    obtain ⟨q, hq, hload⟩ := harray.elements i b hi hb'
    exact ⟨q, hq, Machine.loadsChar_of_loadByte hload⟩
  noElement := stringToCharArray_fails hs hp

/-- Every character of a string can be read in three ways, in a heap without a limit: by its
    index, by its address, and as an element of the array of the string, if there is one. The
    latter two give the same number, from -128 to 127. The first gives this number too if
    the character is an ASCII character, and else 256 more. -/
theorem characters_extended (m : Machine) (hs : s.heap.Unlimited)
    (hp : stringAt p s.heap = .ok text) (hi : 0 ≤ i) (hlt : i.toInt < text.length) :
    ∃ b, text[i.toInt.toNat]? = some b ∧ CharReads m s p text i b ∧
      (Int32.ofNat b.toNat).toInt =
        b.toInt8.toInt32.toInt + if b.toNat < 128 then 0 else 256 := by
  have hzero := Heap.nonneg_iff_toInt.1 hi
  have hb : text[i.toInt.toNat]? = some text[i.toInt.toNat] := List.getElem?_eq_getElem (by omega)
  refine ⟨_, hb, charReads hs hp hi hb, ?_⟩
  rw [Heap.toInt_ofNat_toNat, Int8.toInt_toInt32, CellKind.toInt_toInt8]
  split <;> omega

/-- The second character of the first string is 255 by its index, and -1 where it stands. -/
theorem characters_extended_twoStrings :
    twoStrings.Unlimited ∧ stringAt 8 twoStrings = .ok [0x61, 0xFF] ∧
      call "string_charat" [.ptr 8, .int 1] ⟨twoStrings, {}⟩ =
        .ok (.int 255) ⟨twoStrings, {}⟩ ∧
      Machine.oneConstant.LoadsChar twoStrings 9 (-1) := by
  have hs := unlimited_twoStrings
  have hp : stringAt 8 twoStrings = .ok [0x61, 0xFF] := by decide +kernel
  obtain ⟨b, hb, hreads, -⟩ := characters_extended (s := ⟨twoStrings, {}⟩) (i := 1)
    Machine.oneConstant hs hp (by decide) (by decide)
  obtain rfl : b = 0xFF := (Option.some.inj hb).symm
  exact ⟨hs, hp, hreads.index, hreads.address⟩

/-- A heap with a string of one character, which is no ASCII character. -/
def oneCharacter : Heap :=
  final (Heap.allocString [0x80]) .empty

/-- Its character is not the same by its index and by its address. -/
theorem characters_differ :
    oneCharacter.Unlimited ∧ stringAt 8 oneCharacter = .ok [0x80] ∧
      ∃ n : Int32, call "string_charat" [.ptr 8, .int 0] ⟨oneCharacter, {}⟩ =
          .ok (.int n) ⟨oneCharacter, {}⟩ ∧
        Machine.loadCell .char 8 oneCharacter ≠ .ok (.int n) := by
  have hp : stringAt 8 oneCharacter = .ok [0x80] := by decide +kernel
  obtain ⟨b, hb, hcall⟩ := stringCharAt_eq (s := ⟨oneCharacter, {}⟩) (i := 0) hp (by decide)
    (by decide)
  obtain rfl : b = 0x80 := (Option.some.inj hb).symm
  refine ⟨?_, hp, _, hcall, by decide +kernel⟩
  exact
    { reached := .op (.allocString [0x80]) .empty
      limit := by decide
      size := by decide +kernel }

/-! ## Strings of a character -/

/-- The string of a byte, which a NUL does not have. -/
def byteText (b : UInt8) : Bytes :=
  if b = 0 then [] else [b]

theorem before_singleton (b : UInt8) : Bytes.before 0 [b] = byteText b := by
  rw [byteText]
  split <;> simp [Bytes.before, *]

theorem stringFromChar_zero :
    stringFromChar [.int 0] s = .error (.fault (.contract "string_fromchar" .nulChar)) s := by
  rw [stringFromChar, bind_of_ok (intArg_eq rfl), if_pos rfl]
  rfl

theorem stringFromChar_eq {c : Int32} (hc : c ≠ 0) :
    stringFromChar [.int c] s = returnString [c.toUInt32.toUInt8] s := by
  rw [stringFromChar, bind_of_ok (intArg_eq rfl), if_neg hc]

/-- The string of a character is made of its low byte. The character 0 is refused; every other
    one gives a string of one byte, or the empty string if its low byte is 0. A string to
    which it is joined becomes that much longer. -/
theorem fromChar_lowByte (hs : s.heap.Unlimited) (c : Int32) :
    if c = 0 then
      call "string_fromchar" [.int c] s =
        .error (.fault (.contract "string_fromchar" .nulChar)) s
    else ∃ b : UInt8, (b.toNat : Int) = c.toInt % 256 ∧ ∃ r t,
      call "string_fromchar" [.int c] s = .ok (.ptr r) t ∧
        stringAt r t.heap = .ok (byteText b) ∧
        call "string_length" [.ptr r] t = .ok (.int (if c.toInt % 256 = 0 then 0 else 1)) t ∧
        (t.heap.size < 2 ^ 63 → ∀ q a, stringAt q s.heap = .ok a →
          GivesString (call "string_join" [.ptr q, .ptr r]) t (a ++ byteText b)) := by
  by_cases hc : c = 0
  · rw [if_pos hc, hc]
    exact stringFromChar_zero
  rw [if_neg hc]
  have hbyte := Heap.toNat_lowByte c
  generalize hb : c.toUInt32.toUInt8 = b at hbyte
  have hgives := givesString_before hs [b]
  rw [before_singleton] at hgives
  obtain ⟨r, t, hcall, hread⟩ := hgives
  rw [← hb, ← stringFromChar_eq hc] at hcall
  change call "string_fromchar" [.int c] s = _ at hcall
  refine ⟨b, hbyte, r, t, hcall, hread, ?_, fun ht q a hq => ?_⟩
  · refine (stringLength_eq hread).trans ?_
    have hzero : c.toInt % 256 = 0 ↔ b = 0 := by
      rw [← hbyte, ← UInt8.toNat_inj]
      exact Int.natCast_eq_zero
    simp only [hzero, byteText]
    split <;> rfl
  · obtain ⟨ht', hextends⟩ := extend_of_ok rfl hcall hs ht
    exact stringJoin_givesString (stringAt_of_extends hextends hq) hread ht'

/-- The low byte of 0x141 is that of the letter A, which is joined to the first string. -/
theorem fromChar_lowByte_letter :
    twoStrings.Unlimited ∧ stringAt 8 twoStrings = .ok [0x61, 0xFF] ∧
      ∃ r t, call "string_fromchar" [.int 0x141] ⟨twoStrings, {}⟩ = .ok (.ptr r) t ∧
        stringAt r t.heap = .ok [0x41] ∧
        GivesString (call "string_join" [.ptr 8, .ptr r]) t [0x61, 0xFF, 0x41] := by
  have hs := unlimited_twoStrings
  have hp : stringAt 8 twoStrings = .ok [0x61, 0xFF] := by decide +kernel
  have hchar := fromChar_lowByte (s := ⟨twoStrings, {}⟩) hs 0x141
  rw [if_neg (by decide)] at hchar
  obtain ⟨b, hb, r, t, hcall, hread, -, hjoin⟩ := hchar
  obtain rfl : b = 0x41 := by
    rw [← UInt8.toNat_inj]
    exact Int.ofNat.inj hb
  have ht : (final (call "string_fromchar" [.int 0x141]) ⟨twoStrings, {}⟩).heap.size < 2 ^ 63 := by
    decide +kernel
  rw [final, hcall] at ht
  exact ⟨hs, hp, r, t, hcall, hread, hjoin ht 8 _ hp⟩

/-- The character 256 is not refused, and its string is empty. -/
theorem fromChar_empty :
    Heap.empty.Unlimited ∧ ∃ r t,
      call "string_fromchar" [.int 256] ⟨.empty, {}⟩ = .ok (.ptr r) t ∧
        stringAt r t.heap = .ok [] ∧ call "string_length" [.ptr r] t = .ok (.int 0) t := by
  have hs : Heap.empty.Unlimited := ⟨.empty, by decide, by decide⟩
  have hgives := givesString_before (s := ⟨.empty, {}⟩) hs [0]
  obtain ⟨r, t, hcall, hread⟩ := hgives
  exact ⟨hs, r, t, hcall, hread, stringLength_eq hread⟩

end Library

end CZero
