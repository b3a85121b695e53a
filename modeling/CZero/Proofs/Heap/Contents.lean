import CZero.Proofs.Heap.Basic
import CZero.Proofs.Text

/-!
# What stands in the arena

The arena byte by byte: what a write leaves at each index (`getElem?_overwrite`), and
that bytes are at a place (`HoldsAt`). Bytes that are at a place are loaded from there
(`HoldsAt.load_eq`); they stay when blocks are appended and when other bytes are
overwritten. The bytes of an integer or an address are read back as that integer or
address, and a string is its bytes with a NUL behind them (`loadString_eq_ok_iff_holdsAt`).
-/

namespace CZero.Heap

/-! ## Numbers as bytes -/

theorem ofLowBytes_lowBytes (w n : Nat) : ofLowBytes (lowBytes w n) = n % 256 ^ w := by
  induction w generalizing n with
  | zero => rw [lowBytes, ofLowBytes, Nat.pow_zero, Nat.mod_one]
  | succ w ih =>
    have hlow : (UInt8.ofNat n).toNat = n % 256 := UInt8.toNat_ofNat
    rw [lowBytes, ofLowBytes, ih, hlow, Nat.pow_succ', Nat.mod_mul]

theorem intOfBytes_intBytes (n : Int32) : intOfBytes (intBytes n) = n := by
  have hlt : n.toUInt32.toNat < 256 ^ intSize := n.toUInt32.toNat_lt
  rw [intOfBytes, intBytes, ofLowBytes_lowBytes, Nat.mod_eq_of_lt hlt, UInt32.ofNat_toNat]
  rfl

theorem ptrOfBytes_ptrBytes (p : Addr) : ptrOfBytes (ptrBytes p) = p := by
  have hlt : p.toNat < 256 ^ ptrSize := p.toNat_lt
  rw [ptrOfBytes, ptrBytes, ofLowBytes_lowBytes, Nat.mod_eq_of_lt hlt, UInt64.ofNat_toNat]

/-! ## Writes, byte by byte -/

/-- What stands at an index after a write: a byte that was written, or what was there. -/
theorem getElem?_overwrite (mem : Array UInt8) (i : Nat) (bs : Bytes) (j : Nat) :
    (overwrite mem i bs)[j]? =
      if i ≤ j ∧ j < i + bs.length ∧ j < mem.size then bs[j - i]? else mem[j]? := by
  induction bs generalizing mem i with
  | nil =>
    rw [overwrite, if_neg]
    simp only [List.length_nil]
    omega
  | cons b bs ih =>
    rw [overwrite, ih, Array.size_setIfInBounds, Array.getElem?_setIfInBounds, List.length_cons]
    by_cases hj : i = j
    · -- The first byte is written and then left alone.
      subst hj
      rw [if_neg (by omega), if_pos rfl, Nat.sub_self, List.getElem?_cons_zero]
      by_cases hin : i < mem.size
      · rw [if_pos hin, if_pos (by omega)]
      · rw [if_neg hin, if_neg (by omega), Array.getElem?_eq_none (Nat.not_lt.1 hin)]
    · rw [if_neg hj]
      by_cases hin : i + 1 ≤ j ∧ j < i + 1 + bs.length ∧ j < mem.size
      · obtain ⟨k, rfl⟩ := Nat.exists_eq_add_of_le hin.1
        rw [if_pos hin, if_pos (by omega), show i + 1 + k - i = k + 1 by omega,
          List.getElem?_cons_succ, Nat.add_sub_cancel_left]
      · rw [if_neg hin, if_neg (by omega)]

/-- A write leaves all indices outside its range alone. -/
theorem getElem?_overwrite_of_outside {mem : Array UInt8} {i j : Nat} {bs : Bytes}
    (h : j < i ∨ i + bs.length ≤ j) : (overwrite mem i bs)[j]? = mem[j]? := by
  rw [getElem?_overwrite, if_neg]
  omega

/-! ## Bytes at a place -/

/-- The bytes `bs` stand in the arena from the index `a` on. -/
def HoldsAt (h : Heap) (a : Nat) (bs : Bytes) : Prop :=
  ∀ j < bs.length, h.mem[a + j]? = bs[j]?

theorem holdsAt_iff_prefix_drop {h : Heap} {a : Nat} {bs : Bytes} :
    h.HoldsAt a bs ↔ bs <+: h.mem.toList.drop a := by
  rw [List.prefix_iff_getElem?]
  refine forall₂_congr fun j hj => ?_
  rw [List.getElem?_drop, List.getElem?_eq_getElem hj, Array.getElem?_toList]

namespace HoldsAt

variable {h k : Heap} {a : Nat} {bs : Bytes}

/-- Bytes stay as long as nothing changes where they are. -/
theorem of_bytes (hbs : h.HoldsAt a bs)
    (hbytes : ∀ i, a ≤ i → i < a + bs.length → i < h.size → k.mem[i]? = h.mem[i]?) :
    k.HoldsAt a bs := by
  intro j hj
  have hbyte : h.mem[a + j]? = some bs[j] := (hbs j hj).trans (List.getElem?_eq_getElem hj)
  obtain ⟨hin, -⟩ := Array.getElem?_eq_some_iff.1 hbyte
  rw [← hbs j hj]
  exact hbytes _ (Nat.le_add_right _ _) (Nat.add_lt_add_left hj a) hin

/-- The first bytes of what stands at a place stand there. -/
theorem front (hbs : h.HoldsAt a bs) {cs : Bytes} (hcs : cs <+: bs) : h.HoldsAt a cs :=
  holdsAt_iff_prefix_drop.2 (hcs.trans (holdsAt_iff_prefix_drop.1 hbs))

/-- Blocks are appended behind everything that stands in the arena. -/
theorem granted (hbs : h.HoldsAt a bs) (n : Nat) (cs : Bytes) : (h.granted n cs).HoldsAt a bs :=
  hbs.of_bytes fun _ _ _ hin => Array.getElem?_append_left hin

/-- Bytes stay where they are when others are written. -/
theorem overwrite (hbs : h.HoldsAt a bs) {i : Nat} {cs : Bytes}
    (hi : i + cs.length ≤ a ∨ a + bs.length ≤ i) :
    HoldsAt { h with mem := Heap.overwrite h.mem i cs } a bs := by
  refine hbs.of_bytes fun i hlo hhi _ => ?_
  exact getElem?_overwrite_of_outside (by omega)

/-- Bytes that stand at an address are loaded from there. -/
theorem load_eq {p : Addr} (hbs : h.HoldsAt p.toNat bs) (hlo : wordSize ≤ p.toNat)
    (hhi : p.toNat + bs.length ≤ h.size) : h.load p bs.length = .ok bs := by
  have hbytes : (h.mem.extract p.toNat (p.toNat + bs.length)).toList = bs := by
    refine List.ext_getElem? fun j => ?_
    rw [Array.getElem?_toList, Array.getElem?_extract]
    by_cases hj : j < bs.length
    · rw [if_pos (by rw [size] at hhi; omega), hbs j hj]
    · rw [if_neg (by omega), List.getElem?_eq_none (Nat.not_lt.1 hj)]
  rw [load, check_eq_ok_iff.2 ⟨hlo, hhi⟩]
  exact (slice_of_le hhi).trans (congrArg _ hbytes)

end HoldsAt

theorem holdsAt_extract (h : Heap) (i w : Nat) :
    h.HoldsAt i (h.mem.extract i (i + w)).toList := by
  intro j hj
  rw [Array.length_toList, Array.size_extract] at hj
  rw [Array.getElem?_toList, Array.getElem?_extract, if_pos hj]

/-- What is loaded stands at its address, inside the arena. -/
theorem load_eq_ok_iff_holdsAt {h : Heap} {p : Addr} {n : Nat} {bs : Bytes} :
    h.load p n = .ok bs ↔
      wordSize ≤ p.toNat ∧ p.toNat + n ≤ h.size ∧ bs.length = n ∧ h.HoldsAt p.toNat bs := by
  constructor
  · intro hl
    have hlength := length_of_load hl
    by_cases hp : wordSize ≤ p.toNat ∧ p.toNat + n ≤ h.size
    · rw [load, check_eq_ok_iff.2 hp] at hl
      obtain rfl := Except.ok.inj ((slice_of_le hp.2).symm.trans hl)
      exact ⟨hp.1, hp.2, hlength, h.holdsAt_extract p.toNat n⟩
    · cases hc : h.check p n with
      | ok u => exact absurd (check_eq_ok_iff.1 hc) hp
      | error e =>
        rw [load, hc] at hl
        cases hl
  · rintro ⟨hlo, hhi, rfl, hbs⟩
    exact hbs.load_eq hlo hhi

/-- A byte in the arena behind the reserved word is loaded. -/
theorem loadByte_of_getElem? {h : Heap} {p : Addr} {b : UInt8} (hlo : wordSize ≤ p.toNat)
    (hb : h.mem[p.toNat]? = some b) : h.loadByte p = .ok b := by
  obtain ⟨hlt, -⟩ := Array.getElem?_eq_some_iff.1 hb
  have hholds : h.HoldsAt p.toNat [b] := by
    intro j hj
    obtain rfl := Nat.lt_one_iff.1 hj
    exact hb
  have hload : h.load p charSize = .ok [b] := hholds.load_eq hlo hlt
  rw [loadByte, hload]
  rfl

/-- Bytes that were written stand there. -/
theorem holdsAt_overwrite {h : Heap} {i : Nat} {bs : Bytes} (hi : i + bs.length ≤ h.size) :
    HoldsAt { h with mem := overwrite h.mem i bs } i bs := by
  intro j hj
  rw [size] at hi
  rw [getElem?_overwrite, Nat.add_sub_cancel_left, if_pos (by omega)]

/-- A string stands at an address if its bytes do and a NUL behind them. -/
theorem loadString_eq_ok_iff_holdsAt {h : Heap} {p : Addr} {text : Bytes} :
    h.loadString p = .ok text ↔
      wordSize ≤ p.toNat ∧ 0 ∉ text ∧ h.HoldsAt p.toNat (text ++ [0]) := by
  rw [loadString_eq_ok_iff, holdsAt_iff_prefix_drop]
  refine and_congr_right fun _ => ⟨?_, ?_⟩
  · rintro ⟨-, hnul, rfl⟩
    obtain ⟨more, hmore⟩ := Bytes.exists_eq_before_append hnul
    exact ⟨Bytes.notMem_before 0 _, more, by rw [List.append_assoc]; exact hmore.symm⟩
  · rintro ⟨htext, more, hmore⟩
    have hne : h.mem.toList.drop p.toNat ≠ [] := by simp [← hmore]
    have hlt : p.toNat < h.size := by simpa [size] using hne
    refine ⟨Nat.le_of_lt hlt, by simp [← hmore], ?_⟩
    rw [← hmore, List.append_assoc, Bytes.before_append_of_notMem htext]
    simp [Bytes.before]

/-- A block that was granted holds its contents. -/
theorem holdsAt_granted (h : Heap) {n : Nat} {bs : Bytes} (hbs : bs.length ≤ n) :
    (h.granted n bs).HoldsAt h.size bs := by
  intro j hj
  have hmem : (h.granted n bs).mem[h.size + j]? = (block n bs)[j]? := by
    rw [granted, size, Array.getElem?_append_right (Nat.le_add_right _ _), Nat.add_sub_cancel_left]
  rw [hmem, block_eq hbs, Array.getElem?_append_left (by simpa using hj), List.getElem?_toArray]

/-- A store where nothing is protected succeeds. -/
theorem store_of_free {h : Heap} {p : Addr} {bs : Bytes} (hlo : wordSize ≤ p.toNat)
    (hhi : p.toNat + bs.length ≤ h.size) (hfree : h.guardHi ≤ p.toNat) :
    store p bs h = .ok () { h with mem := overwrite h.mem p.toNat bs } := by
  have hcheck : h.checkWritable p bs.length = .ok () :=
    checkWritable_eq_ok_iff.2 ⟨check_eq_ok_iff.2 ⟨hlo, hhi⟩, .inl hfree⟩
  rw [store, hcheck]
  exact write_of_le hhi

end CZero.Heap
