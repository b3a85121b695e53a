import CZero.Proofs.Heap.Contents
import CZero.Proofs.Heap.Evolution

/-!
# New blocks leave the old ones alone

What is built in a heap is built behind everything that was there (`Extends`), at an
aligned address there (`Fresh`). For that, the heap has to be in good order (`Placed`), as
every heap is that its operations lead to (`Reached.placed`), and its addresses must not
wrap around.

Building fails at the limit, or before anything was allocated. There is one exception:
the length of an array is counted in 32 bits, and if there are too many elements, the
array that is allocated may be too short for them (`Fails.miscounted`). A string or a cell
is one block, and is dealt with here.
-/

namespace CZero.Heap

open CZero.Action

variable {h k l : Heap}

/-! ## Heaps in good order -/

/-- The heaps that the operations of the heap lead to. -/
inductive Reached : Heap → Prop
  | empty : Reached empty
  | op {h : Heap} (o : Op) : Reached h → Reached (o.apply h)
  | mapReadOnly {h : Heap} (bs : Bytes) : Reached h → Reached (final (mapReadOnly bs) h)

/-- The arena is made of whole words, the first of them reserved, and what is protected
    lies inside. -/
structure Placed (h : Heap) : Prop where
  aligned : wordSize ∣ h.size
  reserved : wordSize ≤ h.size
  guarded : h.guardHi ≤ h.size

theorem wordSize_dvd_padded (n : Nat) : wordSize ∣ padded n := by
  rw [padded, wordSize]
  omega

theorem Placed.granted (hh : h.Placed) (n : Nat) (bs : Bytes) : (h.granted n bs).Placed where
  aligned := by
    rw [size_granted]
    exact Nat.dvd_add hh.aligned (wordSize_dvd_padded n)
  reserved := by
    rw [size_granted]
    exact Nat.le_add_right_of_le hh.reserved
  guarded := by
    rw [size_granted]
    exact Nat.le_add_right_of_le hh.guarded

theorem Placed.change (hk : Change h k) (hh : h.Placed) : k.Placed := by
  cases hk with
  | same => exact hh
  | limit n => exact ⟨hh.aligned, hh.reserved, hh.guarded⟩
  | grant n bs => exact hh.granted n bs
  | grantArray n count eltSize => exact (hh.granted n []).granted headerSize _
  | write i bs =>
    obtain ⟨haligned, hreserved, hguarded⟩ := hh
    refine ⟨?_, ?_, ?_⟩ <;> rw [size, size_overwrite]
    · exact haligned
    · exact hreserved
    · exact hguarded

theorem Placed.mapReadOnly (hh : h.Placed) (bs : Bytes) : (final (mapReadOnly bs) h).Placed := by
  have hsize : (final (Heap.mapReadOnly bs) h).size = h.size + padded bs.length := by
    rw [final, mapReadOnly_eq]
    simp [size]
  refine ⟨?_, ?_, ?_⟩ <;> rw [hsize]
  · exact Nat.dvd_add hh.aligned (wordSize_dvd_padded _)
  · exact Nat.le_add_right_of_le hh.reserved
  · rw [final, mapReadOnly_eq]
    exact Nat.add_le_add_left (le_padded _) _

theorem Reached.placed (hh : h.Reached) : h.Placed := by
  induction hh with
  | empty => exact ⟨⟨1, rfl⟩, Nat.le_refl _, Nat.zero_le _⟩
  | op o _ ih => exact ih.change (o.change _)
  | mapReadOnly bs _ ih => exact ih.mapReadOnly bs

theorem Reached.evolves (hh : h.Reached) (hk : Evolves h k) : k.Reached := by
  induction hk with
  | refl => exact hh
  | tail _ hstep ih =>
    obtain ⟨o, rfl⟩ := hstep
    exact ih.op o

/-! ## Extensions -/

/-- `k` is `h` with more behind it: no byte of `h` has changed, nor what it protects. -/
structure Extends (h k : Heap) : Prop where
  bytes : ∀ i < h.size, k.mem[i]? = h.mem[i]?
  size : h.size ≤ k.size
  used : h.used ≤ k.used
  limit : k.limit = h.limit
  guardLo : k.guardLo = h.guardLo
  guardHi : k.guardHi = h.guardHi

instance : IsPreorder Heap Extends where
  refl _ := ⟨fun _ _ => rfl, Nat.le_refl _, Nat.le_refl _, rfl, rfl, rfl⟩
  trans _ _ _ hk hl :=
    { bytes := fun i hi => (hl.bytes i (Nat.lt_of_lt_of_le hi hk.size)).trans (hk.bytes i hi)
      size := Nat.le_trans hk.size hl.size
      used := Nat.le_trans hk.used hl.used
      limit := hl.limit.trans hk.limit
      guardLo := hl.guardLo.trans hk.guardLo
      guardHi := hl.guardHi.trans hk.guardHi }

theorem extends_granted (h : Heap) (n : Nat) (bs : Bytes) : h.Extends (h.granted n bs) where
  bytes i hi := Array.getElem?_append_left hi
  size := by
    rw [size_granted]
    exact Nat.le_add_right _ _
  used := Nat.le_add_right _ _
  limit := rfl
  guardLo := rfl
  guardHi := rfl

/-- What stands in a heap stands in every extension. -/
theorem Extends.holdsAt (hk : h.Extends k) {a : Nat} {bs : Bytes} (hbs : h.HoldsAt a bs) :
    k.HoldsAt a bs :=
  hbs.of_bytes fun i _ _ hin => hk.bytes i hin

/-- What is loaded from a heap is loaded from every extension. -/
theorem Extends.load (hk : h.Extends k) {p : Addr} {n : Nat} {bs : Bytes}
    (hl : h.load p n = .ok bs) : k.load p n = .ok bs := by
  obtain ⟨hlo, hhi, hlength, hbs⟩ := load_eq_ok_iff_holdsAt.1 hl
  exact load_eq_ok_iff_holdsAt.2 ⟨hlo, Nat.le_trans hhi hk.size, hlength, hk.holdsAt hbs⟩

/-- So is what is made of it. -/
theorem Extends.load_bind {α : Type} (hk : h.Extends k) {p : Addr} {n : Nat} {x : α}
    {f : Bytes → Except Failure α} (hx : (h.load p n >>= f) = .ok x) :
    (k.load p n >>= f) = .ok x := by
  cases hl : h.load p n with
  | error e =>
    rw [hl] at hx
    cases hx
  | ok bs =>
    rw [hl] at hx
    rw [hk.load hl]
    exact hx

theorem Extends.loadInt (hk : h.Extends k) {p : Addr} {n : Int32} (hn : h.loadInt p = .ok n) :
    k.loadInt p = .ok n :=
  hk.load_bind hn

theorem Extends.loadPtr (hk : h.Extends k) {p q : Addr} (hq : h.loadPtr p = .ok q) :
    k.loadPtr p = .ok q :=
  hk.load_bind hq

theorem Extends.arrayLength (hk : h.Extends k) {a : Addr} {n : Int32}
    (hn : h.arrayLength a = .ok n) : k.arrayLength a = .ok n := by
  rw [Heap.arrayLength] at hn ⊢
  split at hn
  · cases hn
  · rw [if_neg ‹_›]
    exact hk.loadInt hn

theorem Extends.arrayElement (hk : h.Extends k) {a q : Addr} {i : Int32}
    (hq : h.arrayElement a i = .ok q) : k.arrayElement a i = .ok q := by
  rw [Heap.arrayElement] at hq ⊢
  split at hq
  · cases hq
  · rw [if_neg ‹_›]
    exact hk.load_bind hq

/-- Writing behind a heap still extends it. -/
theorem Extends.overwrite (hk : h.Extends k) {i : Nat} (hi : h.size ≤ i) (bs : Bytes) :
    h.Extends { k with mem := overwrite k.mem i bs } where
  bytes j hj := by
    rw [← hk.bytes j hj]
    exact getElem?_overwrite_of_outside (.inl (Nat.lt_of_lt_of_le hj hi))
  size := Nat.le_trans hk.size (Nat.le_of_eq (size_overwrite _ _ _).symm)
  used := hk.used
  limit := hk.limit
  guardLo := hk.guardLo
  guardHi := hk.guardHi

/-- `p` is the address of a word behind everything that `h` has. -/
structure Fresh (h : Heap) (p : Addr) : Prop where
  aligned : wordSize ∣ p.toNat
  beyond : h.size ≤ p.toNat

theorem toNat_addrOf {i : Nat} (hi : i < 2 ^ 64) : (addrOf i).toNat = i :=
  UInt64.toNat_ofNat_of_lt hi

/-- A string in a new block is read back up to its first NUL. -/
theorem loadString_granted (hlo : wordSize ≤ h.size) (hsize : h.size < 2 ^ 63) (text : Bytes) :
    (h.granted (text.length + 1) text).loadString (addrOf h.size) = .ok (Bytes.before 0 text) := by
  have hpad := le_padded (text.length + 1)
  obtain ⟨z, hz⟩ : ∃ z, padded (text.length + 1) - text.length = z + 1 :=
    ⟨padded (text.length + 1) - text.length - 1, by omega⟩
  have haddr : (addrOf h.size).toNat = h.size := toNat_addrOf (by omega)
  -- Behind the string there is at least one zero.
  have hdrop : (h.granted (text.length + 1) text).mem.toList.drop (addrOf h.size).toNat =
      text ++ 0 :: List.replicate z 0 := by
    rw [haddr, granted, block_eq (Nat.le_succ _), hz]
    simp [size, List.replicate_succ]
  have hnul : 0 ∈ text ++ 0 :: List.replicate z 0 := by simp
  rw [loadString_eq (by omega) (by rw [size_granted]; omega), hdrop, if_pos hnul]
  by_cases hmem : 0 ∈ text
  · rw [Bytes.before_append hmem]
  · rw [Bytes.before_append_of_notMem hmem, Bytes.before_eq_self hmem]
    simp [Bytes.before]

/-- How building something of `n` elements behind `h` fails: before anything was
    allocated, or at the limit, or because an array is too short for so many. -/
inductive Fails (h : Heap) (n : Nat) : Failure → Heap → Prop
  | unchanged (e : Failure) : Fails h n e h
  | refused {k : Heap} : h.Extends k → Fails h n (.fault (.heapLimit h.limit)) k
  | miscounted {k : Heap} {i count : Int32} : 2 ^ 32 ≤ n → h.Extends k →
    Fails h n (.fault (.arrayIndex i count)) k

theorem Fails.mono {m n : Nat} {e : Failure} (hk : Fails h m e k) (hmn : m ≤ n) :
    Fails h n e k := by
  cases hk with
  | unchanged => exact .unchanged e
  | refused hk => exact .refused hk
  | miscounted hm hk => exact .miscounted (Nat.le_trans hm hmn) hk

theorem Fails.extend {n : Nat} {e : Failure} (hk : Fails h n e k) : h.Extends k := by
  cases hk with
  | unchanged => exact refl h
  | refused hk => exact hk
  | miscounted hn hk => exact hk

theorem Fails.reason {n : Nat} {e : Failure} (hk : Fails h n e k) :
    k = h ∨ e = .fault (.heapLimit h.limit) ∨
      2 ^ 32 ≤ n ∧ ∃ i count, e = .fault (.arrayIndex i count) := by
  cases hk with
  | unchanged => exact .inl rfl
  | refused hk => exact .inr (.inl rfl)
  | miscounted hn hk => exact .inr (.inr ⟨hn, _, _, rfl⟩)

/-- An action builds something of `n` elements behind `h`, if it does not fail. -/
abbrev BuildsBehind (h : Heap) (n : Nat) : EStateM.Result Failure Heap Addr → Prop :=
  EndsIn (fun p k => h.Fresh p ∧ h.Extends k) (Fails h n)

section

variable (hh : h.Placed) (hsize : h.size < 2 ^ 63)
include hh hsize

/-- The end of the arena is where the next block comes. -/
theorem fresh_addrOf_size : h.Fresh (addrOf h.size) := by
  have hp : (addrOf h.size).toNat = h.size := toNat_addrOf (by omega)
  refine ⟨?_, Nat.le_of_eq hp.symm⟩
  rw [hp]
  exact hh.aligned

/-! ## Strings and cells -/

theorem allocString_buildsBehind (s : Bytes) (n : Nat) :
    BuildsBehind h n (allocString s h) := by
  rw [allocString_eq]
  split
  · exact .refused (refl h)
  · exact ⟨fresh_addrOf_size hh hsize, extends_granted h _ s⟩

/-- A store into the block that was granted last. -/
theorem store_granted {n : Nat} {bs : Bytes} (hbs : bs.length ≤ n) :
    ∃ k, store (addrOf h.size) bs (h.granted n []) = .ok () k ∧ h.Extends k ∧
      k.load (addrOf h.size) bs.length = .ok bs := by
  have hp : (addrOf h.size).toNat = h.size := toNat_addrOf (by omega)
  have hn := le_padded n
  have hend : h.size ≤ (addrOf h.size).toNat := Nat.le_of_eq hp.symm
  have hlo : wordSize ≤ (addrOf h.size).toNat := Nat.le_trans hh.reserved hend
  have hhi : (addrOf h.size).toNat + bs.length ≤ (h.granted n []).size := by
    rw [hp, size_granted]
    omega
  have hguard : h.guardHi ≤ (addrOf h.size).toNat := Nat.le_trans hh.guarded hend
  refine ⟨_, store_of_free hlo hhi hguard, (extends_granted h n []).overwrite hend bs, ?_⟩
  exact (holdsAt_overwrite hhi).load_eq hlo (hhi.trans_eq (size_overwrite _ _ _).symm)

/-- A cell holds its integer, unless the limit refuses it. -/
theorem boxInt_endsIn (n : Int32) :
    EndsIn (fun p k => p = addrOf h.size ∧ h.Extends k ∧ k.loadInt p = .ok n)
      (fun e k => k = h ∧ e = .fault (.heapLimit h.limit) ∧ 0 < h.limit) (boxInt n h) := by
  have halloc := alloc_eq h (n := intSize) (by decide)
  rw [boxInt]
  split at halloc
  · rename_i hover
    rw [bind_of_error halloc]
    exact ⟨rfl, rfl, Int.not_le.1 fun hlimit => not_overLimit hlimit _ hover⟩
  · obtain ⟨k, hstore, hk, hload⟩ :=
      store_granted (n := intSize) hh hsize (Nat.le_of_eq (length_intBytes n))
    rw [bind_of_ok halloc, storeInt, bind_of_ok hstore]
    refine ⟨rfl, hk, ?_⟩
    rw [length_intBytes] at hload
    rw [loadInt, hload]
    exact congrArg Except.ok (intOfBytes_intBytes n)

theorem boxInt_buildsBehind (i : Int32) (n : Nat) : BuildsBehind h n (boxInt i h) := by
  refine (boxInt_endsIn hh hsize i).mono ?_ ?_
  · rintro _ k ⟨rfl, hk, -⟩
    exact ⟨fresh_addrOf_size hh hsize, hk⟩
  · rintro _ _ ⟨rfl, rfl, -⟩
    exact .refused (refl _)

theorem boxBool_buildsBehind (b : Bool) (n : Nat) : BuildsBehind h n (boxBool b h) := by
  have halloc := alloc_eq h (n := charSize) (by decide)
  rw [boxBool]
  split at halloc
  · rw [bind_of_error halloc]
    exact .refused (refl h)
  · rw [bind_of_ok halloc]
    have hfresh := fresh_addrOf_size hh hsize
    cases b with
    | false => exact ⟨hfresh, extends_granted h charSize []⟩
    | true =>
      have hfit : [(1 : UInt8)].length ≤ charSize := Nat.le_refl _
      obtain ⟨k, hstore, hk, -⟩ := store_granted hh hsize hfit
      rw [if_pos rfl, storeChar, bind_of_ok hstore]
      exact ⟨hfresh, hk⟩

end

end CZero.Heap
