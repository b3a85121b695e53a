import CZero.Proofs.Heap.Blocks

/-!
# Strings in memory

A string is written with a NUL behind it and read up to the first NUL. So a string that was
allocated is read back up to the first NUL of its own, and that stays so for as long as the
bytes that it was granted stay: allocations and stores apart from them
(`Undisturbed.holdsAt`).

Reading a string from any 64-bit address is a scan of the arena. It finds an end exactly if
the address lies in the arena, behind the reserved word, and there is a zero byte from there
on (`exists_loadString_iff`); else it is a memory fault. What it finds has no NUL and stands
there with a NUL behind it, which is also why every end of a string is a string
(`loadString_add`).
-/

namespace CZero.Heap

open CZero.Action

variable {h k l : Heap} {p q : Addr} {text : Bytes} {a n : Nat}

/-! ## Allocated strings -/

/-- Nothing was stored to the `n` bytes at `a` on the way from `k`. What was done are
    allocations, new limits, mapping of constants, and stores to other bytes. -/
inductive Undisturbed (a n : Nat) (k : Heap) : Heap → Prop
  | start : Undisturbed a n k k
  | op {l : Heap} (o : Op) : (o.allocates ∨ ∃ limit, o = .setLimit limit) →
    Undisturbed a n k l → Undisturbed a n k (o.apply l)
  | mapReadOnly {l : Heap} (bs : Bytes) :
    Undisturbed a n k l → Undisturbed a n k (final (mapReadOnly bs) l)
  | store {l : Heap} (p : Addr) (bs : Bytes) : p.toNat + bs.length ≤ a ∨ a + n ≤ p.toNat →
    Undisturbed a n k l → Undisturbed a n k (final (store p bs) l)

theorem HoldsAt.mapReadOnly {bs : Bytes} (hbs : h.HoldsAt a bs) (cs : Bytes) :
    (final (mapReadOnly cs) h).HoldsAt a bs := by
  rw [final, mapReadOnly_eq]
  exact hbs.of_bytes fun i _ _ hin => Array.getElem?_append_left hin

theorem HoldsAt.store {bs cs : Bytes} (hbs : h.HoldsAt a bs)
    (hp : p.toNat + cs.length ≤ a ∨ a + bs.length ≤ p.toNat) :
    (final (store p cs) h).HoldsAt a bs := by
  rw [final]
  cases hs : Heap.store p cs h with
  | ok u k =>
    obtain ⟨-, -, -, rfl⟩ := store_eq_ok hs
    exact hbs.overwrite hp
  | error e k =>
    obtain ⟨rfl, -⟩ := store_eq_error hs
    exact hbs

theorem size_le_mapReadOnly (h : Heap) (bs : Bytes) : h.size ≤ (final (mapReadOnly bs) h).size := by
  rw [final, mapReadOnly_eq]
  simp [size]

/-- Bytes stay where they are if nothing else is stored there. -/
theorem Undisturbed.holdsAt (hl : Undisturbed a n k l) (hsize : l.size < 2 ^ 63) {bs : Bytes}
    (hlen : bs.length ≤ n) (hbs : k.HoldsAt a bs) : l.HoldsAt a bs := by
  induction hl with
  | start => exact hbs
  | @op l o ho _ ih =>
    have hheld := ih (Nat.lt_of_le_of_lt (o.size_le l) hsize)
    rcases ho with ho | ⟨limit, rfl⟩
    · exact (o.grants ho hsize).extends.holdsAt hheld
    · exact hheld
  | @mapReadOnly l cs _ ih =>
    exact (ih (Nat.lt_of_le_of_lt (size_le_mapReadOnly l cs) hsize)).mapReadOnly cs
  | @store l p cs hp _ ih =>
    rw [(store_sameLayout p cs l).size] at hsize
    exact (ih hsize).store (by omega)

/-- A string stays if nothing else is stored to its bytes and the NUL behind them. -/
theorem Undisturbed.loadString (hl : Undisturbed p.toNat n k l) (hsize : l.size < 2 ^ 63)
    (hp : k.loadString p = .ok text) (hlen : text.length + 1 ≤ n) : l.loadString p = .ok text := by
  obtain ⟨hlo, hnul, hbs⟩ := loadString_eq_ok_iff_holdsAt.1 hp
  exact loadString_eq_ok_iff_holdsAt.2 ⟨hlo, hnul, hl.holdsAt hsize (by simpa using hlen) hbs⟩

/-- A string that was allocated is read back up to its first NUL. -/
theorem loadString_of_allocString (hlo : wordSize ≤ h.size) (hsize : h.size < 2 ^ 63)
    (halloc : allocString text h = .ok p k) : k.loadString p = .ok (Bytes.before 0 text) := by
  rw [allocString_eq] at halloc
  split at halloc <;> cases halloc
  exact loadString_granted hlo hsize text

/-! ## Reading a string -/

/-- A string is found from an address of the arena that has a zero byte from there on. -/
theorem exists_loadString_iff : (∃ text, h.loadString q = .ok text) ↔
    wordSize ≤ q.toNat ∧ q.toNat < h.size ∧ ∃ i, q.toNat ≤ i ∧ h.mem[i]? = some 0 := by
  have hmem : 0 ∈ h.mem.toList.drop q.toNat ↔ ∃ i, q.toNat ≤ i ∧ h.mem[i]? = some 0 := by
    rw [List.mem_iff_getElem?]
    simp only [List.getElem?_drop, Array.getElem?_toList]
    exact ⟨fun ⟨i, hi⟩ => ⟨_, Nat.le_add_right _ i, hi⟩, fun ⟨i, hle, hi⟩ =>
      ⟨i - q.toNat, by rwa [Nat.add_sub_of_le hle]⟩⟩
  simp only [loadString_eq_ok_iff, hmem, exists_and_left, exists_eq, and_true]
  refine and_congr_right fun _ => and_congr_left ?_
  -- The zero byte lies in the arena, so the address does.
  rintro ⟨i, hle, hi⟩
  obtain ⟨hin, -⟩ := Array.getElem?_eq_some_iff.1 hi
  rw [size]
  omega

/-- An end of a string is a string, which is read at its place. -/
theorem loadString_add (hsize : h.size < 2 ^ 63) (hq : h.loadString q = .ok text) {j : Nat}
    (hj : j ≤ text.length) : h.loadString (q + UInt64.ofNat j) = .ok (text.drop j) := by
  obtain ⟨hlo, hnul, hbs⟩ := loadString_eq_ok_iff_holdsAt.1 hq
  -- The NUL behind the string is in the arena, so the address does not wrap around.
  have hlast : h.mem[q.toNat + text.length]? = some 0 := by
    rw [hbs text.length (by simp), List.getElem?_concat_length]
  obtain ⟨hin, -⟩ := Array.getElem?_eq_some_iff.1 hlast
  rw [size] at hsize
  have hoffset : (UInt64.ofNat j).toNat = j := toNat_addrOf (by omega)
  have haddr : (q + UInt64.ofNat j).toNat = q.toNat + j := by
    rw [UInt64.toNat_add, hoffset, Nat.mod_eq_of_lt (by omega)]
  rw [loadString_eq_ok_iff_holdsAt, haddr]
  refine ⟨by omega, fun hmem => hnul (List.mem_of_mem_drop hmem), fun i hi => ?_⟩
  rw [← List.drop_append_of_le_length hj, List.length_drop] at hi
  rw [Nat.add_assoc, hbs (j + i) (by omega), ← List.drop_append_of_le_length hj, List.getElem?_drop]

/-- Strings in memory are what was written and what stands there. In a heap that its
    operations lead to, and whose size is a 64-bit number:

    * A string that is allocated is read back up to its first NUL, in every later heap in
      which nothing was stored to its bytes or the NUL behind them.
    * At any address, a string is found exactly if the address lies in the arena behind the
      reserved word and a zero byte from there on. It has no NUL, it stands at the address
      with a NUL behind it, and each of its ends is found at the place of that end. Else
      reading is a memory fault. -/
theorem strings_scanned (hh : h.Reached) (hsize : h.size < 2 ^ 63) :
    (∀ text p k l, allocString text h = .ok p k →
      Undisturbed p.toNat (text.length + 1) k l → l.size < 2 ^ 63 →
      l.loadString p = .ok (Bytes.before 0 text)) ∧
    ∀ q : Addr,
      ((∃ text, h.loadString q = .ok text) ↔
        wordSize ≤ q.toNat ∧ q.toNat < h.size ∧ ∃ i, q.toNat ≤ i ∧ h.mem[i]? = some 0) ∧
      (∀ text, h.loadString q = .ok text →
        0 ∉ text ∧ (∀ i < text.length, h.mem[q.toNat + i]? = text[i]?) ∧
        h.mem[q.toNat + text.length]? = some 0 ∧
        ∀ j ≤ text.length, h.loadString (q + UInt64.ofNat j) = .ok (text.drop j)) ∧
      ((¬∃ text, h.loadString q = .ok text) →
        ∃ c : Fault.Cause, c.kind = .memory ∧ h.loadString q = .error (.fault c)) := by
  refine ⟨fun text p k l halloc hl hlater => ?_, fun q => ⟨exists_loadString_iff, ?_, ?_⟩⟩
  · have hp := loadString_of_allocString hh.placed.reserved hsize halloc
    exact hl.loadString hlater hp (Nat.succ_le_succ (length_before_le text))
  · intro text hq
    obtain ⟨-, hnul, hbs⟩ := loadString_eq_ok_iff_holdsAt.1 hq
    refine ⟨hnul, fun i hi => ?_, ?_, fun j => loadString_add hsize hq⟩
    · rw [hbs i (by rw [List.length_append]; omega), List.getElem?_append_left hi]
    · rw [hbs text.length (by simp), List.getElem?_concat_length]
  · intro hnone
    cases hq : h.loadString q with
    | ok text => exact absurd ⟨text, hq⟩ hnone
    | error e =>
      obtain ⟨-, c, rfl, hc⟩ := loadString_errs e hq
      exact ⟨c, hc, rfl⟩

/-- The heap with a string `ab`, a NUL and `c`, allocated at the address 16 behind constants. -/
def embedded : Heap :=
  final (allocString [0x61, 0x62, 0, 0x63]) (initial (some [0x78, 0]))

/-- The heap when another string has been allocated behind it and changed. -/
def embeddedLater : Heap :=
  final (store 24 [0x79]) ((Op.allocString [0x7a, 0x7a]).apply embedded)

/-- The string is read up to its NUL, also when more has been written behind it. So is its
    end, and from the end of the arena there is nothing to read. -/
theorem strings_scanned_embeddedNul :
    (initial (some [0x78, 0])).Reached ∧ Undisturbed 16 5 embedded embeddedLater ∧
      embeddedLater.loadString 16 = .ok [0x61, 0x62] ∧ embeddedLater.loadString 17 = .ok [0x62] ∧
      ∃ c : Fault.Cause, c.kind = .memory ∧ embeddedLater.loadString 32 = .error (.fault c) := by
  have hh : (initial (some [0x78, 0])).Reached := .mapReadOnly [0x78, 0] .empty
  obtain ⟨_, _, ⟨rfl, rfl⟩, halloc⟩ : ∃ p k, (p = 16 ∧ k = embedded) ∧
      allocString [0x61, 0x62, 0, 0x63] (initial (some [0x78, 0])) = .ok p k :=
    EndsIn.exists_eq_ok (by decide +kernel)
  have hl : Undisturbed 16 5 embedded embeddedLater := Undisturbed.start
    |>.op (.allocString [0x7a, 0x7a]) (.inl rfl)
    |>.store 24 [0x79] (.inr (by decide))
  obtain ⟨hallocated, -⟩ := strings_scanned hh (by decide +kernel)
  have hstring := hallocated _ _ _ _ halloc hl (by decide +kernel)
  -- The heap with the other string is reached from the first one by three operations.
  have hlater : embeddedLater.Reached := hh |>.op (.allocString [0x61, 0x62, 0, 0x63])
    |>.op (.allocString [0x7a, 0x7a]) |>.op (.storeChar 24 0x79)
  obtain ⟨-, hscan⟩ := strings_scanned hlater (by decide +kernel)
  obtain ⟨-, hfound, -⟩ := hscan 16
  obtain ⟨-, -, -, hends⟩ := hfound _ hstring
  obtain ⟨hiff, -, hnone⟩ := hscan 32
  refine ⟨hh, hl, hstring, hends 1 (by decide), hnone fun hsome => ?_⟩
  exact absurd (hiff.1 hsome).2.1 (by decide +kernel)

end CZero.Heap
