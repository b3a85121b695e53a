import CZero.Proofs.Arrays
import CZero.Proofs.Strings

/-!
# Strings and character arrays

A string becomes an array of its bytes and a NUL, and back (`stringFromCharArray_givesString`),
unless these are too many for an array (`stringToCharArray_fails`).
Two functions read characters out of an array: one asks for the string in the whole array,
the other whether there is a NUL among the first so many characters. Both find the length in
the header, whatever it says, and read in the same way: the last element is tried, and then
one after the other is read (`Heap.readChars_of_nonneg`). So they agree about every address,
also if no array has ever been there (`agree`).

An array that was allocated, and whose header is still there, can be read from its first
element to its last (`exists_stringTerminated_eq`), if the header has room for the size of an
element; the more of it one looks at, the more likely one finds a NUL. `charArrays_disagree`
has the two exceptions.
-/

namespace CZero

open CZero.Action

/-! ## Reading characters -/

namespace Heap

variable {h k l : Heap} {a p : Addr} {bs : Bytes}

theorem readCharsFrom_of_elements (done : Bytes) {i : Int32} (hi : i.toInt = done.length)
    (hlength : (done ++ bs).length < 2 ^ 31)
    (helements : ∀ (j : Int32) (b : UInt8), 0 ≤ j → (done ++ bs)[j.toInt.toNat]? = some b →
      h.elementByte p j = .ok b) :
    h.readCharsFrom p done.reverse i bs.length = .ok (done ++ bs) := by
  induction bs generalizing done i with
  | nil => rw [List.append_nil, List.length_nil, readCharsFrom, List.reverse_reverse]
  | cons b bs ih =>
    have hb : h.elementByte p i = .ok b := by
      refine helements i b (nonneg_iff_toInt.2 (by omega)) ?_
      rw [hi, Int.toNat_natCast, List.getElem?_append_right (Nat.le_refl _), Nat.sub_self]
      rfl
    have hnext : (i + 1).toInt = (done ++ [b]).length := by
      rw [List.length_append, List.length_cons] at hlength
      have hlt : i < Int32.ofNat (done.length + 1) := by
        rw [Int32.lt_iff_toInt_lt, Int32.toInt_ofNat_of_lt (by omega)]
        omega
      rw [toInt_add_one hlt, hi, List.length_append]
      rfl
    rw [List.append_cons] at hlength helements ⊢
    rw [← ih _ hnext hlength helements, List.length_cons, readCharsFrom, hb, List.reverse_append]
    rfl

/-- If all elements are found, they are read. -/
theorem readChars_of_elements {n : Int32} (hn : n.toInt = bs.length)
    (helements : ∀ (j : Int32) (b : UInt8), 0 ≤ j → bs[j.toInt.toNat]? = some b →
      h.elementByte p j = .ok b) (name : String) : h.readChars name p n = .ok bs := by
  have hlength : bs.length < 2 ^ 31 := by
    have := n.toInt_lt
    omega
  have hread : h.readCharsFrom p [] 0 n.toInt.toNat = .ok bs := by
    rw [hn, Int.toNat_natCast]
    exact readCharsFrom_of_elements [] Int32.toInt_zero hlength helements
  rw [readChars_of_nonneg (nonneg_iff_toInt.2 (by omega)), hread]
  split
  · -- The last element is tried first, and it is one of them.
    rename_i hpos
    have hlast := toInt_sub_one hpos
    rw [Int32.lt_iff_toInt_lt, Int32.toInt_zero] at hpos
    have hlt : (n - 1).toInt.toNat < bs.length := by omega
    rw [helements (n - 1) _ (nonneg_iff_toInt.2 (by omega)) (List.getElem?_eq_getElem hlt)]
    rfl
  · rfl

/-- The characters of an array are read. -/
theorem HasArray.elementByte (ha : h.HasArray a bs fun b q => h.loadByte q = .ok b) {i : Int32}
    {b : UInt8} (hi : 0 ≤ i) (hb : bs[i.toInt.toNat]? = some b) :
    h.elementByte a i = .ok b := by
  obtain ⟨q, hq, hload⟩ := ha.elements i b hi hb
  rw [Heap.elementByte, hq]
  exact hload

/-- What is an array has an address. -/
theorem ne_null_of_arrayLength {n : Int32} (hn : h.arrayLength a = .ok n) : a ≠ Addr.null := by
  rintro rfl
  cases hn

/-- Elements that can be read one by one are some bytes. -/
theorem exists_bytes {count : Int32} (hcount : 0 ≤ count)
    (helements : ∀ i, 0 ≤ i → i < count → ∃ b, h.elementByte a i = .ok b) :
    ∃ bs : Bytes, bs.length = count.toInt.toNat ∧
      ∀ (j : Int32) (b : UInt8), 0 ≤ j → bs[j.toInt.toNat]? = some b →
        h.elementByte a j = .ok b := by
  refine ⟨(List.range count.toInt.toNat).map fun j =>
    (h.elementByte a (Int32.ofNat j)).toOption.getD 0, by simp, fun j b hj hb => ?_⟩
  have hzero := nonneg_iff_toInt.1 hj
  have hcount' := nonneg_iff_toInt.1 hcount
  rw [List.getElem?_map, Option.map_eq_some_iff] at hb
  obtain ⟨i, hi, rfl⟩ := hb
  obtain ⟨hlt, hi⟩ := List.getElem?_eq_some_iff.1 hi
  rw [List.length_range] at hlt
  obtain ⟨b, hb⟩ := helements j hj (Int32.lt_iff_toInt_lt.2 (by omega))
  have hindex : Int32.ofNat i = j := by
    rw [← hi, List.getElem_range, ← Int32.ofInt_eq_ofNat, Int.toNat_of_nonneg hzero,
      Int32.ofInt_toInt]
  rw [hindex, hb]
  rfl

section

variable {count : Int32} (hh : h.Placed) (hsize : l.size < 2 ^ 63) (hgrown : k.size ≤ l.size)
  (hheader : ∀ i, a.toNat ≤ i → i < a.toNat + headerSize → l.mem[i]? = k.mem[i]?)
include hh hsize hgrown hheader

/-- The header of an array that was allocated is still there. -/
theorem header_of_allocArray {eltSize : Int} (halloc : allocArray count eltSize h = .ok a k) :
    l.HoldsAt a.toNat (headerBytes count eltSize (addrOf h.size)) ∧ wordSize ≤ a.toNat ∧
      a.toNat + headerSize ≤ l.size := by
  obtain ⟨n, -, -, ha, hk⟩ := allocArray_eq_ok halloc
  have hend : k.size = (h.granted n []).size + headerSize := by
    rw [hk, grantedArray, size_granted]
    rfl
  have haddr : a.toNat = (h.granted n []).size := by
    rw [ha]
    exact toNat_addrOf (by omega)
  have hholds : k.HoldsAt a.toNat (headerBytes count eltSize (addrOf h.size)) := by
    rw [haddr, hk]
    exact holdsAt_granted _ (Nat.le_of_eq (length_headerBytes _ _ _))
  refine ⟨hholds.of_bytes fun i hlo hhi _ => hheader i hlo ?_, ?_, ?_⟩
  · rwa [length_headerBytes] at hhi
  · rw [haddr]
    exact (hh.granted n []).reserved
  · omega

/-- So its length is known. -/
theorem arrayLength_of_allocArray {eltSize : Int} (halloc : allocArray count eltSize h = .ok a k) :
    0 ≤ count ∧ l.arrayLength a = .ok count := by
  obtain ⟨n, -, hcount, -⟩ := allocArray_eq_ok halloc
  obtain ⟨hholds, hlo, hroom⟩ := header_of_allocArray hh hsize hgrown hheader halloc
  exact ⟨hcount, arrayLength_of_holdsAt hholds hlo hroom⟩

/-- Its elements are in the arena, whatever they hold, if the header has room for their size. -/
theorem exists_elementByte {e : Nat} (he : e < 2 ^ 31) (halloc : allocArray count e h = .ok a k)
    {i : Int32} (hi : 0 ≤ i) (hlt : i < count) : ∃ b, l.elementByte a i = .ok b := by
  obtain ⟨hholds, hlo, hroom⟩ := header_of_allocArray hh hsize hgrown hheader halloc
  obtain ⟨ho, -⟩ :=
    made_of_allocArray hh.reserved he halloc (Nat.lt_of_le_of_lt hgrown hsize) hh.guarded
  have hreserved := ho.reserved
  have helements := ho.elements
  rw [headerSize] at hroom
  have hin := element_le hi hlt e
  have hq : (addrOf (h.size + i.toInt.toNat * e)).toNat = h.size + i.toInt.toNat * e :=
    toNat_addrOf (by omega)
  -- An element of no bytes is found too, in front of the header.
  have hlt' : h.size + i.toInt.toNat * e < l.mem.size := by
    change _ < l.size
    omega
  refine ⟨l.mem[h.size + i.toInt.toNat * e], ?_⟩
  rw [Heap.elementByte, arrayElement_of_holdsAt hholds hlo hroom ho.width,
    if_neg (not_or.2 ⟨Int32.not_lt.2 hi, Int32.not_le.2 hlt⟩)]
  refine loadByte_of_getElem? ?_ ?_ <;> rw [hq]
  · exact Nat.le_add_right_of_le hreserved
  · exact Array.getElem?_eq_getElem hlt'

end

/-- Elements of a negative size are allocated only if there are none. -/
theorem le_zero_of_allocArray {count e : Int32} (he : e < 0)
    (halloc : allocArray count e.toInt h = .ok a k) : count ≤ 0 := by
  obtain ⟨n, hn, -⟩ := allocArray_eq_ok halloc
  rw [← Int32.not_lt]
  intro hpos
  have hlow := e.le_toInt
  have hneg := Int32.lt_iff_toInt_lt.1 he
  have hcountLt := count.toInt_lt
  rw [Int32.lt_iff_toInt_lt] at hpos
  rw [Int32.toInt_zero] at hneg hpos
  have hprod : count.toInt * e.toInt < 0 := Int.mul_neg_of_pos_of_neg hpos hneg
  have hbound : -(2 ^ 62) ≤ count.toInt * e.toInt := by
    calc
      -(2 ^ 62) = 2 ^ 31 * (-2 ^ 31) := by decide
      _ ≤ count.toInt * (-2 ^ 31) := Int.mul_le_mul_of_nonpos_right (by omega) (by decide)
      _ ≤ count.toInt * e.toInt := Int.mul_le_mul_of_nonneg_left hlow (by omega)
  rw [elementsSize, Int.bmod_eq_of_le (by omega) (by omega)] at hn
  omega

end Heap

namespace Library

open Native

variable {s t : Host} {a p : Addr} {m n : Int32} {text bs : Bytes}

/-! ## Strings become arrays and come back -/

section

variable {α : Type} {x : Action Heap Addr} {xs : List α} {At : α → Addr → Heap → Prop}

/-- An array that is built in the heap is given back. -/
theorem returning_hasArray (hx : Heap.BuildsArray xs At (x s.heap)) (hlt : xs.length < 2 ^ 31) :
    ∃ a t, returning x s = .ok (.ptr a) t ∧ t.heap.HasArray a xs fun y q => At y q t.heap := by
  cases hs : x s.heap with
  | ok a k =>
    rw [hs] at hx
    exact ⟨a, ⟨k, s.console⟩, bind_of_ok (Host.onHeap_eq_ok.2 ⟨k, hs, rfl⟩), hx.2⟩
  | error e k =>
    rw [hs] at hx
    exact absurd hlt (Nat.not_lt.2 hx.1)

/-- An array that would have too many elements is a fault of memory. -/
theorem returning_fails (hx : Heap.BuildsArray xs At (x s.heap)) (hge : 2 ^ 31 ≤ xs.length) :
    ∃ e t, returning x s = .error e t ∧ e.IsMemoryFault := by
  cases hs : x s.heap with
  | ok a k =>
    rw [hs] at hx
    exact absurd hx.1 (Nat.not_lt.2 hge)
  | error e k =>
    rw [hs] at hx
    exact ⟨e, ⟨k, s.console⟩, bind_of_error (Host.onHeap_eq_error.2 ⟨k, hs, rfl⟩), hx.2⟩

end

section

variable (hs : s.heap.Unlimited) (hp : stringAt p s.heap = .ok text)
include hs hp

/-- The array of a string has its bytes and a NUL. -/
theorem stringToCharArray_hasArray (hlt : text.length + 1 < 2 ^ 31) :
    ∃ a t, stringToCharArray [.ptr p] s = .ok (.ptr a) t ∧
      t.heap.HasArray a (text ++ [0]) fun b q => t.heap.loadByte q = .ok b := by
  have halloc := Heap.allocChars_of_limit hs.reached.placed hs.size hs.limit (text ++ [0])
  rw [stringToCharArray, bind_of_ok (stringArg_eq rfl hp)]
  refine returning_hasArray halloc ?_
  rwa [List.length_append, List.length_singleton]

/-- A string that is too long for an array has none. -/
theorem stringToCharArray_fails (hge : 2 ^ 31 ≤ text.length + 1) :
    ∃ e t, stringToCharArray [.ptr p] s = .error e t ∧ e.IsMemoryFault := by
  have halloc := Heap.allocChars_of_limit hs.reached.placed hs.size hs.limit (text ++ [0])
  rw [stringToCharArray, bind_of_ok (stringArg_eq rfl hp)]
  refine returning_fails halloc ?_
  rwa [List.length_append, List.length_singleton]

end

theorem lengthAt_of_arrayLength (hn : s.heap.arrayLength a = .ok n) :
    lengthAt a s.heap = .ok n := by
  rw [lengthAt, if_neg (Heap.ne_null_of_arrayLength hn), hn]

/-- What the string in an array is, once its characters are read. -/
theorem stringFromCharArray_eq (hn : lengthAt a s.heap = .ok n) :
    stringFromCharArray [.ptr a] s =
      match s.heap.readChars "string_from_chararray" a n with
      | .ok bs =>
        if bs.contains 0 then returnString (bs.before 0) s
        else .error (.fault (.contract "string_from_chararray" .unterminated)) s
      | .error e => .error e s := by
  rw [stringFromCharArray, bind_of_ok (ptrArg_eq rfl), bind_of_ok (ofHeap_of_ok hn)]
  cases hread : s.heap.readChars "string_from_chararray" a n with
  | error e => exact bind_of_error (ofHeap_of_error hread)
  | ok bs =>
    rw [bind_of_ok (ofHeap_of_ok hread)]
    dsimp only
    split <;> rfl

/-- Whether there is a NUL, once the characters are read. -/
theorem stringTerminated_eq (hn : lengthAt a s.heap = .ok n) (hm : 0 ≤ m) (hmn : m ≤ n) :
    stringTerminated [.ptr a, .int m] s =
      match s.heap.readChars "string_terminated" a m with
      | .ok bs => .ok (.ofBool (bs.contains 0)) s
      | .error e => .error e s := by
  rw [stringTerminated, bind_of_ok (ptrArg_eq rfl), bind_of_ok (intArg_eq rfl),
    bind_of_ok (ofHeap_of_ok hn), if_neg (not_or.2 ⟨Int32.not_lt.2 hm, Int32.not_lt.2 hmn⟩)]
  cases hread : s.heap.readChars "string_terminated" a m with
  | error e => exact bind_of_error (ofHeap_of_error hread)
  | ok bs => exact bind_of_ok (ofHeap_of_ok hread)

/-- A negative length in the header is a breach of both contracts. -/
theorem stringTerminated_of_neg (hn : lengthAt a s.heap = .ok n) (hneg : m < 0) :
    stringTerminated [.ptr a, .int m] s =
      .error (.fault (.contract "string_terminated" (.charCount m n))) s := by
  rw [stringTerminated, bind_of_ok (ptrArg_eq rfl), bind_of_ok (intArg_eq rfl),
    bind_of_ok (ofHeap_of_ok hn), if_pos (.inl hneg)]
  rfl

/-- The array of a string is read as the string. -/
theorem stringFromCharArray_givesString (ht : t.heap.Unlimited) (htext : 0 ∉ text)
    (ha : t.heap.HasArray a (text ++ [0]) fun b q => t.heap.loadByte q = .ok b) :
    GivesString (stringFromCharArray [.ptr a]) t text := by
  obtain ⟨n, hn, hlength⟩ := ha.length
  have hread := Heap.readChars_of_elements hn (fun j b => ha.elementByte) "string_from_chararray"
  have hbefore : (text ++ [0]).before 0 = text := by
    rw [Bytes.before_append_of_notMem htext]
    simp [Bytes.before]
  obtain ⟨r, u, hr, hru⟩ := givesString_of_notMem ht htext
  refine ⟨r, u, ?_, hru⟩
  rw [stringFromCharArray_eq (lengthAt_of_arrayLength hlength), hread]
  simpa [hbefore] using hr

/-! ## The whole of an array -/

/-- The string in the array at `a` is there exactly if there is a NUL among its first `n`
    characters; if not, there is no NUL, or both questions fail alike. -/
structure Agree (s : Host) (a : Addr) (n : Int32) : Prop where
  string : (∃ v t, call "string_from_chararray" [.ptr a] s = .ok v t) ↔
    call "string_terminated" [.ptr a, .int n] s = .ok (.int 1) s
  unterminated : call "string_from_chararray" [.ptr a] s =
      .error (.fault (.contract "string_from_chararray" .unterminated)) s ↔
    call "string_terminated" [.ptr a, .int n] s = .ok (.int 0) s
  fails : call "string_terminated" [.ptr a, .int n] s ≠ .ok (.int 1) s →
    call "string_terminated" [.ptr a, .int n] s ≠ .ok (.int 0) s →
    ∃ c d, call "string_terminated" [.ptr a, .int n] s = .error (.fault c) s ∧
      call "string_from_chararray" [.ptr a] s = .error (.fault d) s ∧ c.kind = d.kind

/-- The three ways in which the two questions can end. -/
theorem agree_cases (hlimit : s.heap.limit ≤ 0) (hn : lengthAt a s.heap = .ok n) :
    (∃ v t, stringFromCharArray [.ptr a] s = .ok v t) ∧
        stringTerminated [.ptr a, .int n] s = .ok (.int 1) s ∨
      stringFromCharArray [.ptr a] s =
          .error (.fault (.contract "string_from_chararray" .unterminated)) s ∧
        stringTerminated [.ptr a, .int n] s = .ok (.int 0) s ∨
      ∃ c d, stringTerminated [.ptr a, .int n] s = .error (.fault c) s ∧
        stringFromCharArray [.ptr a] s = .error (.fault d) s ∧ c.kind = d.kind ∧
        d ≠ .contract "string_from_chararray" .unterminated := by
  have hfrom := stringFromCharArray_eq hn
  by_cases hneg : n < 0
  · rw [Heap.readChars_of_neg hneg] at hfrom
    exact .inr (.inr ⟨_, _, stringTerminated_of_neg hn hneg, hfrom, rfl, nofun⟩)
  -- The name under which the characters are read does not matter any more.
  have hpos := Int32.not_lt.1 hneg
  have hterminated := stringTerminated_eq hn hpos (Int32.le_refl n)
  have hname : s.heap.readChars "string_from_chararray" a n =
      s.heap.readChars "string_terminated" a n := by
    rw [Heap.readChars_of_nonneg hpos, Heap.readChars_of_nonneg hpos]
  rw [hname] at hfrom
  cases hread : s.heap.readChars "string_terminated" a n with
  | error e =>
    obtain ⟨-, c, rfl, hc⟩ := Heap.readChars_errs_of_nonneg hpos _ e hread
    rw [hread] at hfrom hterminated
    refine .inr (.inr ⟨c, c, hterminated, hfrom, rfl, ?_⟩)
    rintro rfl
    cases hc
  | ok bs =>
    rw [hread] at hfrom hterminated
    dsimp only at hfrom hterminated
    by_cases hnul : bs.contains 0
    · rw [if_pos hnul] at hfrom
      rw [hnul] at hterminated
      exact .inl ⟨⟨_, _, hfrom.trans (returnString_of_limit hlimit)⟩, hterminated⟩
    · rw [if_neg hnul] at hfrom
      rw [Bool.not_eq_true] at hnul
      rw [hnul] at hterminated
      exact .inr (.inl ⟨hfrom, hterminated⟩)

theorem agree (hlimit : s.heap.limit ≤ 0) (hn : lengthAt a s.heap = .ok n) : Agree s a n := by
  have hfrom : call "string_from_chararray" [.ptr a] = stringFromCharArray [.ptr a] := rfl
  have hterminated : call "string_terminated" [.ptr a, .int n] =
      stringTerminated [.ptr a, .int n] := rfl
  refine ⟨?_, ?_, ?_⟩ <;> rw [hfrom, hterminated] <;>
    rcases agree_cases hlimit hn with ⟨⟨v, t, hv⟩, hone⟩ | ⟨hf, hzero⟩ | ⟨c, d, hc, hd, hkind, hne⟩
  · simp [hv, hone]
  · simp [hf, hzero]
  · simp [hc, hd]
  · simp [hv, hone]
  · simp [hf, hzero]
  · simp [hc, hd, hne]
  · simp [hone]
  · simp [hzero]
  · exact fun _ _ => ⟨c, d, hc, hd, hkind⟩

/-! ## Parts of an array -/

/-- Of an array whose header is there, the characters are some bytes, and the question
    whether there is a NUL in a part of it is about these. -/
theorem exists_stringTerminated_eq {h k : Heap} {count e : Int32} (hh : h.Placed)
    (halloc : Heap.allocArray count e.toInt h = .ok a k) (hsize : s.heap.size < 2 ^ 63)
    (hgrown : k.size ≤ s.heap.size)
    (hheader : ∀ i, a.toNat ≤ i → i < a.toNat + Heap.headerSize →
      s.heap.mem[i]? = k.mem[i]?) :
    ∃ bs : Bytes, ∀ m : Int32, 0 ≤ m → m ≤ count →
      stringTerminated [.ptr a, .int m] s =
        .ok (.ofBool ((bs.take m.toInt.toNat).contains 0)) s := by
  obtain ⟨hcount, hlength⟩ := Heap.arrayLength_of_allocArray hh hsize hgrown hheader halloc
  have helements : ∀ i, 0 ≤ i → i < count → ∃ b, s.heap.elementByte a i = .ok b := by
    intro i hi hlt
    by_cases he : e < 0
    · have hnone := Heap.le_zero_of_allocArray he halloc
      exact absurd (Int32.lt_of_le_of_lt hi hlt) (Int32.not_lt.2 hnone)
    have hwidth : (e.toInt.toNat : Int) = e.toInt :=
      Int.toNat_of_nonneg (Heap.nonneg_iff_toInt.1 (Int32.not_lt.1 he))
    have hlt' := e.toInt_lt
    rw [← hwidth] at halloc
    exact Heap.exists_elementByte hh hsize hgrown hheader (by omega) halloc hi hlt
  obtain ⟨bs, hbs, hbytes⟩ := Heap.exists_bytes hcount helements
  refine ⟨bs, fun m hm hmn => ?_⟩
  have hzero := Heap.nonneg_iff_toInt.1 hm
  have hle := Int32.le_iff_toInt_le.1 hmn
  have hread : s.heap.readChars "string_terminated" a m = .ok (bs.take m.toInt.toNat) := by
    refine Heap.readChars_of_elements ?_ (fun j b hj hb => hbytes j b hj ?_) _
    · rw [List.length_take, hbs]
      omega
    · rw [List.getElem?_take] at hb
      split at hb
      · exact hb
      · cases hb
  rw [stringTerminated_eq (lengthAt_of_arrayLength hlength) hm hmn, hread]

/-- What is found in a part is found in a larger part. -/
theorem ofBool_contains_take_le (bs : Bytes) {i j : Nat} (hij : i ≤ j) :
    ∃ x y : Int32, Cell.ofBool ((bs.take i).contains 0) = .int x ∧
      Cell.ofBool ((bs.take j).contains 0) = .int y ∧ x ≤ y := by
  refine ⟨_, _, rfl, rfl, ?_⟩
  by_cases hi : (bs.take i).contains 0
  · have hj : (bs.take j).contains 0 := by
      rw [List.contains_iff_mem] at hi ⊢
      exact (List.take_prefix_take_left hij).subset hi
    rw [hi, hj]
    decide
  · rw [if_neg hi]
    split <;> decide

/-- Strings and character arrays agree, in a heap without a limit.

    * A string that has less than `2 ^ 31` bytes with its NUL has an array, which has these
      bytes, and the string in this array is the string. A longer one has none: that is a
      fault of memory.
    * Whatever address one takes for an array: if its length cannot be loaded, both
      functions that read characters fail for that reason. Else they agree about the array as
      a whole; the null pointer is an array of length 0.
    * In an array that was allocated, the larger the part, the more likely it holds a NUL.
      The size of its elements is an `int`, as the header has it. Nothing else is asked of the
      array but that its header is as it was made. -/
theorem charArrays_agree (hs : s.heap.Unlimited) :
    (∀ p text, stringAt p s.heap = .ok text →
      (text.length + 1 < 2 ^ 31 → ∃ a t,
        call "string_to_chararray" [.ptr p] s = .ok (.ptr a) t ∧
        (t.heap.HasArray a (text ++ [0]) fun b q => t.heap.loadByte q = .ok b) ∧
        (t.heap.size < 2 ^ 63 → GivesString (call "string_from_chararray" [.ptr a]) t text)) ∧
      (2 ^ 31 ≤ text.length + 1 → ∃ e t,
        call "string_to_chararray" [.ptr p] s = .error e t ∧ e.IsMemoryFault)) ∧
    (∀ a : Addr,
      (∀ e, a ≠ Addr.null → s.heap.arrayLength a = .error e → e.IsMemoryFault ∧
        call "string_from_chararray" [.ptr a] s = .error e s ∧
        ∀ m, call "string_terminated" [.ptr a, .int m] s = .error e s) ∧
      ∀ n, (if a = Addr.null then n = 0 else s.heap.arrayLength a = .ok n) → Agree s a n) ∧
    ∀ (h k : Heap) (count e : Int32) (a : Addr), h.Reached →
      Heap.allocArray count e.toInt h = .ok a k → k.size ≤ s.heap.size →
      (∀ i, a.toNat ≤ i → i < a.toNat + Heap.headerSize → s.heap.mem[i]? = k.mem[i]?) →
      ∀ m n, 0 ≤ m → m ≤ n → n ≤ count → ∃ x y : Int32,
        call "string_terminated" [.ptr a, .int m] s = .ok (.int x) s ∧
        call "string_terminated" [.ptr a, .int n] s = .ok (.int y) s ∧ x ≤ y := by
  refine ⟨fun p text hp => ⟨fun hlt => ?_, stringToCharArray_fails hs hp⟩,
    fun a => ⟨fun e ha he => ?_, fun n hn => ?_⟩, ?_⟩
  · obtain ⟨a, t, hcall, harray⟩ := stringToCharArray_hasArray hs hp hlt
    refine ⟨a, t, hcall, harray, fun ht => ?_⟩
    change call "string_to_chararray" [.ptr p] s = _ at hcall
    obtain ⟨ht', -⟩ := extend_of_ok rfl hcall hs ht
    exact stringFromCharArray_givesString ht' (notMem_of_stringAt hp) harray
  · have hlength : lengthAt a s.heap = .error e := by
      rw [lengthAt, if_neg ha, he]
    refine ⟨Heap.arrayLength_errs e he, ?_, fun m => ?_⟩
    · exact (bind_of_ok (ptrArg_eq rfl)).trans (bind_of_error (ofHeap_of_error hlength))
    · refine (bind_of_ok (ptrArg_eq rfl)).trans ((bind_of_ok (intArg_eq rfl)).trans ?_)
      exact bind_of_error (ofHeap_of_error hlength)
  · refine agree hs.limit ?_
    rw [lengthAt]
    split at hn
    · rw [if_pos ‹_›, hn]
    · rw [if_neg ‹_›, hn]
  · intro h k count e a hh halloc hgrown hheader m n hm hmn hn
    obtain ⟨bs, hbs⟩ := exists_stringTerminated_eq hh.placed halloc hs.size hgrown hheader
    have hle : m.toInt.toNat ≤ n.toInt.toNat := by
      have := Int32.le_iff_toInt_le.1 hmn
      omega
    obtain ⟨x, y, hx, hy, hxy⟩ := ofBool_contains_take_le bs hle
    refine ⟨x, y, ?_, ?_, hxy⟩
    · rw [← hx]
      exact hbs m hm (Int32.le_trans hmn hn)
    · rw [← hy]
      exact hbs n (Int32.le_trans hm hmn) hn

/-- Behind two strings there is an array of three characters, of which the first is set. -/
def threeChars : Heap :=
  final (Heap.storeChar 16 0x78) (final (Heap.allocArray 3 1) twoStrings)

/-- A string with a byte above 127 goes there and back; of the array, the first part without
    NUL and the first with one are found; and a string is no array, though its bytes are
    taken for a header. -/
theorem charArrays_agree_threeChars :
    threeChars.Unlimited ∧ stringAt 8 threeChars = .ok [0x61, 0xFF] ∧
      (∃ a t, call "string_to_chararray" [.ptr 8] ⟨threeChars, {}⟩ = .ok (.ptr a) t ∧
        GivesString (call "string_from_chararray" [.ptr a]) t [0x61, 0xFF]) ∧
      threeChars.arrayLength 8 = .ok 0x6100FF61 ∧
      (∃ c d, call "string_terminated" [.ptr 8, .int 0x6100FF61] ⟨threeChars, {}⟩ =
          .error (.fault c) ⟨threeChars, {}⟩ ∧
        call "string_from_chararray" [.ptr 8] ⟨threeChars, {}⟩ =
          .error (.fault d) ⟨threeChars, {}⟩ ∧ c.kind = d.kind) ∧
      Heap.allocArray 3 1 twoStrings = .ok 24 (final (Heap.allocArray 3 1) twoStrings) ∧
      ∃ x y : Int32,
        call "string_terminated" [.ptr 24, .int 1] ⟨threeChars, {}⟩ =
          .ok (.int x) ⟨threeChars, {}⟩ ∧
        call "string_terminated" [.ptr 24, .int 2] ⟨threeChars, {}⟩ =
          .ok (.int y) ⟨threeChars, {}⟩ ∧ x ≤ y := by
  have hreached : twoStrings.Reached := .mapReadOnly _ .empty
  have hs : threeChars.Unlimited :=
    { reached := .op (.storeChar 16 0x78) (.op (.allocArray 3 1) hreached)
      limit := by decide +kernel
      size := by decide +kernel }
  have hp : stringAt 8 threeChars = .ok [0x61, 0xFF] := by decide +kernel
  have hlength : threeChars.arrayLength 8 = .ok 0x6100FF61 := by decide +kernel
  obtain ⟨_, _, ⟨rfl, rfl⟩, halloc⟩ : ∃ a k,
      (a = 24 ∧ k = final (Heap.allocArray 3 1) twoStrings) ∧
        Heap.allocArray 3 1 twoStrings = .ok a k := EndsIn.exists_eq_ok (by decide +kernel)
  obtain ⟨hstrings, harrays, hparts⟩ := charArrays_agree (s := ⟨threeChars, {}⟩) hs
  obtain ⟨a, t, hcall, -, hback⟩ := (hstrings 8 _ hp).1 (by decide)
  have ht : (final (call "string_to_chararray" [.ptr 8]) ⟨threeChars, {}⟩).heap.size < 2 ^ 63 := by
    decide +kernel
  rw [final, hcall] at ht
  have hfails : EndsIn (fun _ _ => False) (fun _ _ => True)
      (call "string_terminated" [.ptr 8, .int 0x6100FF61] ⟨threeChars, {}⟩) := by
    decide +kernel
  refine ⟨hs, hp, ⟨a, t, hcall, hback ht⟩, hlength, ?_, halloc, ?_⟩
  · refine ((harrays 8).2 0x6100FF61 ?_).fails ?_ ?_
    · rw [if_neg (by decide)]
      exact hlength
    · intro h
      rwa [h] at hfails
    · intro h
      rwa [h] at hfails
  · exact hparts twoStrings _ 3 1 24 hreached halloc (by decide +kernel) (by decide +kernel) 1 2
      (by decide) (by decide) (by decide)

theorem unlimited_withString {text : Bytes} (htext : text.length < 2 ^ 62) :
    (withString text).Unlimited where
  reached := reached_withString text
  limit := Int.le_of_eq (limit_withString text)
  size := by
    rw [size_withString, Heap.padded, Heap.wordSize]
    omega

/-- A heap with an array of three elements, whose size times three is 2 beyond `2 ^ 64`. -/
def wideArray : Heap :=
  final (Heap.allocArray 3 0x5555555555555556) .empty

/-- A string of 2 ^ 31 - 1 letters has no array, for want of a length. And an array can be
    allocated, though its second element lies outside the arena: then there is a NUL in its
    first element, and no answer for the first two. -/
theorem charArrays_disagree :
    ((withString (letters (2 ^ 31 - 1))).Unlimited ∧
      stringAt 8 (withString (letters (2 ^ 31 - 1))) = .ok (letters (2 ^ 31 - 1)) ∧
      ∃ e t, call "string_to_chararray" [.ptr 8] ⟨withString (letters (2 ^ 31 - 1)), {}⟩ =
        .error e t) ∧
    wideArray.Unlimited ∧ Heap.allocArray 3 0x5555555555555556 .empty = .ok 16 wideArray ∧
      call "string_terminated" [.ptr 16, .int 1] ⟨wideArray, {}⟩ =
        .ok (.int 1) ⟨wideArray, {}⟩ ∧
      ∃ e, call "string_terminated" [.ptr 16, .int 2] ⟨wideArray, {}⟩ =
        .error e ⟨wideArray, {}⟩ := by
  constructor
  · -- The number stays a variable, lest the letters are counted one by one.
    obtain ⟨n, hn⟩ : ∃ n : Nat, n = 2 ^ 31 - 1 := ⟨_, rfl⟩
    rw [← hn]
    have hlength : (letters n).length + 1 = 2 ^ 31 := by
      rw [length_letters]
      omega
    have hp := stringAt_withString (notMem_letters n)
    have hs : (withString (letters n)).Unlimited := unlimited_withString (by omega)
    obtain ⟨e, t, hcall, -⟩ := stringToCharArray_fails (s := ⟨_, {}⟩) hs hp hlength.ge
    exact ⟨hs, hp, e, t, hcall⟩
  · have hs : wideArray.Unlimited :=
      { reached := .op (.allocArray 3 0x5555555555555556) .empty
        limit := by decide +kernel
        size := by decide +kernel }
    obtain ⟨_, _, ⟨rfl, rfl⟩, halloc⟩ : ∃ a k, (a = 16 ∧ k = wideArray) ∧
        Heap.allocArray 3 0x5555555555555556 .empty = .ok a k :=
      EndsIn.exists_eq_ok (by decide +kernel)
    have hlength : lengthAt 16 wideArray = .ok 3 := by decide +kernel
    have hone : wideArray.readChars "string_terminated" 16 1 = .ok [0] := by decide +kernel
    have htwo : wideArray.readChars "string_terminated" 16 2 =
        .error (.fault (.address 0x5555555e)) := by
      decide +kernel
    refine ⟨hs, halloc, ?_, .fault (.address 0x5555555e), ?_⟩
    · refine (stringTerminated_eq (s := ⟨wideArray, {}⟩) hlength (by decide) (by decide)).trans ?_
      rw [hone]
      rfl
    · refine (stringTerminated_eq (s := ⟨wideArray, {}⟩) hlength (by decide) (by decide)).trans ?_
      rw [htwo]

end Library

end CZero
