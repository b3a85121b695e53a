import CZero.Proofs.Cells
import CZero.Proofs.Heap.Blocks
import CZero.Proofs.Heap.Filling

/-!
# Arrays hold what was stored in them

An array takes two blocks, its elements and behind them its header. What becomes of it
depends on the stores to its elements alone, as long as stores elsewhere keep off these two
blocks (`Later`): its header stays, so that it has the same length and its elements are
found at the same addresses, and every element holds what was stored there last.

The bytes of an element are taken as one number, the low byte first. A store to an element
replaces its low bytes and starts out from zero (`held`), which says what a load of any
width finds there, also if the stores had different widths. That the heap represents the
array in this way (`Represents`) is preserved by every later step.
-/

namespace CZero.Heap

open CZero.Action

variable {h k l l' : Heap} {i w e : Nat}

/-! ## Numbers and their low bytes -/

theorem byteAt_lt (h : Heap) (i : Nat) : h.byteAt i < 256 :=
  UInt8.toNat_lt _

theorem numberAt_add (h : Heap) (i w r : Nat) :
    h.numberAt i (w + r) = h.numberAt i w + 256 ^ w * h.numberAt (i + w) r := by
  rw [numberAt, numberAt, numberAt, Finset.sum_range_add, Finset.mul_sum]
  congr 1
  refine Finset.sum_congr rfl fun j _ => ?_
  rw [Nat.add_assoc, Nat.pow_add, Nat.mul_left_comm]

theorem numberAt_lt (h : Heap) (i w : Nat) : h.numberAt i w < 256 ^ w := by
  induction w with
  | zero => exact Nat.one_pos
  | succ w ih =>
    have hbyte : h.numberAt (i + w) 1 = h.byteAt (i + w) := by simp [numberAt]
    have hlt := h.byteAt_lt (i + w)
    rw [numberAt_add, hbyte, Nat.pow_succ]
    calc
      h.numberAt i w + 256 ^ w * h.byteAt (i + w) < 256 ^ w + 256 ^ w * h.byteAt (i + w) :=
        Nat.add_lt_add_right ih _
      _ = 256 ^ w * (h.byteAt (i + w) + 1) := by rw [Nat.mul_succ, Nat.add_comm]
      _ ≤ 256 ^ w * 256 := Nat.mul_le_mul_left _ hlt

/-- The low bytes of a number. -/
theorem numberAt_mod (h : Heap) (i : Nat) (hw : w ≤ e) :
    h.numberAt i e % 256 ^ w = h.numberAt i w := by
  obtain ⟨r, rfl⟩ := Nat.exists_eq_add_of_le hw
  rw [numberAt_add, Nat.add_mul_mod_self_left, Nat.mod_eq_of_lt (h.numberAt_lt i w)]

/-- The high bytes of a number. -/
theorem numberAt_div (h : Heap) (i w r : Nat) :
    h.numberAt i (w + r) / 256 ^ w = h.numberAt (i + w) r := by
  have hpos : 0 < 256 ^ w := Nat.pow_pos (by decide)
  rw [numberAt_add, Nat.add_mul_div_left _ _ hpos, Nat.div_eq_of_lt (h.numberAt_lt i w),
    Nat.zero_add]

theorem numberAt_congr (hbytes : ∀ j < w, k.mem[i + j]? = h.mem[i + j]?) :
    k.numberAt i w = h.numberAt i w := by
  refine Finset.sum_congr rfl fun j hj => ?_
  rw [byteAt, byteAt, hbytes j (Finset.mem_range.1 hj)]

/-! ## Histories -/

/-- What element `i` holds after the stores of a log, as a number: each store replaces as
    many low bytes as it has. -/
def held (i : Int32) (log : List (Int32 × Datum)) : Nat :=
  log.foldl (fun v x => if x.1 = i then v / 256 ^ x.2.kind.width * 256 ^ x.2.kind.width + x.2.number
    else v) 0

/-- An array of elements of `e` bytes, with its header at `a`, was made when the heap grew
    from `h` to `k`. Later steps have led to `l`, and those of the log were stores to
    elements of the array. The others are allocations, new limits, and stores to memory that
    was there before the array or came after it. -/
inductive Later (h k : Heap) (a : Addr) (e : Nat) : List (Int32 × Datum) → Heap → Prop
  | made : Later h k a e [] k
  | op {log : List (Int32 × Datum)} {l : Heap} (o : Op) :
    o.allocates ∨ (∃ n, o = .setLimit n) → Later h k a e log l → Later h k a e log (o.apply l)
  | elsewhere {log : List (Int32 × Datum)} {l : Heap} (p : Addr) (d : Datum) :
    p.toNat + d.kind.width ≤ h.size ∨ k.size ≤ p.toNat → Later h k a e log l →
      Later h k a e log (final (d.store p) l)
  | element {log : List (Int32 × Datum)} {l : Heap} {i : Int32} {q : Addr} (d : Datum) :
    l.arrayElement a i = .ok q → d.kind.width ≤ e → Later h k a e log l →
      Later h k a e (log ++ [(i, d)]) (final (d.store q) l)

theorem held_concat (i j : Int32) (d : Datum) (log : List (Int32 × Datum)) :
    held i (log ++ [(j, d)]) = if j = i then
      held i log / 256 ^ d.kind.width * 256 ^ d.kind.width + d.number else held i log := by
  rw [held, List.foldl_append]
  rfl

theorem size_final_store (p : Addr) (d : Datum) (l : Heap) :
    (final (d.store p) l).size = l.size := by
  rw [Datum.store_eq]
  exact (store_sameLayout p d.bytes l).size

/-! ## The array in the heap -/

/-- Different elements lie apart. -/
theorem element_apart {i j : Int32} (hi : 0 ≤ i) (hj : 0 ≤ j) (hij : i ≠ j) (e : Nat) :
    i.toInt.toNat * e + e ≤ j.toInt.toNat * e ∨ j.toInt.toNat * e + e ≤ i.toInt.toNat * e := by
  rcases Int32.le_total i j with hle | hle
  · exact .inl (element_le hi (Int32.lt_of_le_of_ne hle hij) e)
  · exact .inr (element_le hj (Int32.lt_of_le_of_ne hle hij.symm) e)

/-- The array that was made between `h` and `k` stands in `l`, and holds what the log says. -/
structure Represents (h k : Heap) (a : Addr) (count : Int32) (e : Nat)
    (log : List (Int32 × Datum)) (l : Heap) : Prop where
  grown : k.size ≤ l.size
  guarded : l.guardHi ≤ h.size
  header : l.HoldsAt a.toNat (headerBytes count e (addrOf h.size))
  elements : ∀ i, 0 ≤ i → i < count → l.numberAt (h.size + i.toInt.toNat * e) e = held i log

/-- Where the blocks of an array are: the elements from the end of `h` on, then the header,
    which is all that `k` has more. -/
structure Occupies (h k : Heap) (a : Addr) (count : Int32) (e : Nat) : Prop where
  reserved : wordSize ≤ h.size
  elements : h.size + count.toInt.toNat * e ≤ a.toNat
  header : a.toNat + headerSize = k.size
  bounded : k.size < 2 ^ 63
  count : 0 ≤ count
  width : e < 2 ^ 31

section

variable {a p q : Addr} {count : Int32} {log : List (Int32 × Datum)} {d : Datum}
  (ho : Occupies h k a count e)
include ho

theorem Represents.arrayElement_eq (hl : Represents h k a count e log l) (i : Int32) :
    l.arrayElement a i = if i < 0 ∨ count ≤ i then .error (.fault (.arrayIndex i count))
      else .ok (addrOf (h.size + i.toInt.toNat * e)) := by
  have hreserved := ho.reserved
  have helements := ho.elements
  refine arrayElement_of_holdsAt hl.header (by omega) ?_ ho.width i
  rw [ho.header]
  exact hl.grown

/-- An element that is found is one of the array, at its place. -/
theorem Represents.of_arrayElement (hl : Represents h k a count e log l) {i : Int32}
    (hq : l.arrayElement a i = .ok q) :
    0 ≤ i ∧ i < count ∧ q.toNat = h.size + i.toInt.toNat * e := by
  rw [hl.arrayElement_eq ho] at hq
  split at hq
  · cases hq
  · rename_i hi
    rw [not_or, Int32.not_lt, Int32.not_le] at hi
    cases hq
    refine ⟨hi.1, hi.2, toNat_addrOf ?_⟩
    have hin := element_le hi.1 hi.2 e
    have helements := ho.elements
    have hheader := ho.header
    have hbounded := ho.bounded
    omega

/-- What leaves the two blocks of the array alone leaves the array alone. -/
theorem Represents.of_bytes (hl : Represents h k a count e log l) (hsize : l.size ≤ l'.size)
    (hguard : l'.guardHi = l.guardHi)
    (hbytes : ∀ i, h.size ≤ i → i < k.size → l'.mem[i]? = l.mem[i]?) :
    Represents h k a count e log l' where
  grown := Nat.le_trans hl.grown hsize
  guarded := hguard.trans_le hl.guarded
  header j hj := by
    have helements := ho.elements
    have hheader := ho.header
    rw [length_headerBytes] at hj
    rw [← hl.header j (by rwa [length_headerBytes])]
    exact hbytes _ (by omega) (by omega)
  elements i hi hlt := by
    have hin := element_le hi hlt e
    have helements := ho.elements
    have hheader := ho.header
    rw [← hl.elements i hi hlt]
    exact numberAt_congr fun j hj => hbytes _ (by omega) (by omega)

/-- An allocation changes nothing that is there. -/
theorem Represents.op (hl : Represents h k a count e log l) {o : Op}
    (hop : o.allocates ∨ ∃ n, o = .setLimit n) (hsize : (o.apply l).size < 2 ^ 63) :
    Represents h k a count e log (o.apply l) := by
  rcases hop with hop | ⟨n, rfl⟩
  · have hextends := (o.grants hop hsize).extends
    refine hl.of_bytes ho hextends.size hextends.guardHi fun i _ hi => ?_
    exact hextends.bytes i (Nat.lt_of_lt_of_le hi hl.grown)
  · exact hl.of_bytes ho (Nat.le_refl _) rfl fun _ _ _ => rfl

/-- A store apart from the array does not change it. -/
theorem Represents.elsewhere (hl : Represents h k a count e log l)
    (hp : p.toNat + d.kind.width ≤ h.size ∨ k.size ≤ p.toNat) :
    Represents h k a count e log (final (d.store p) l) := by
  rw [final]
  cases hs : d.store p l with
  | error e l' =>
    obtain ⟨rfl, -⟩ := store_refused hs
    exact hl
  | ok u l' =>
    have hstored := stored_of_store hs
    rw [Datum.store_eq] at hs
    obtain ⟨-, -, -, rfl⟩ := store_eq_ok hs
    refine hl.of_bytes ho (Nat.le_of_eq hstored.size.symm) rfl fun i hlo hhi => ?_
    exact hstored.elsewhere i (by omega)

/-- A store to an element is granted. -/
theorem Represents.store_element (hl : Represents h k a count e log l) {i : Int32}
    (hq : l.arrayElement a i = .ok q) (hd : d.kind.width ≤ e) :
    d.store q l = .ok () { l with mem := overwrite l.mem q.toNat d.bytes } := by
  obtain ⟨hi, hlt, hplace⟩ := hl.of_arrayElement ho hq
  have hin := element_le hi hlt e
  have hreserved := ho.reserved
  have helements := ho.elements
  have hheader := ho.header
  have hgrown := hl.grown
  have hguarded := hl.guarded
  rw [Datum.store_eq]
  refine store_of_free (by omega) ?_ (by omega)
  rw [d.length_bytes]
  omega

/-- A store to an element replaces its low bytes, and changes no other element. -/
theorem Represents.element (hl : Represents h k a count e log l) {i : Int32}
    (hq : l.arrayElement a i = .ok q) (hd : d.kind.width ≤ e) :
    Represents h k a count e (log ++ [(i, d)]) (final (d.store q) l) := by
  obtain ⟨hi, hlt, hplace⟩ := hl.of_arrayElement ho hq
  have hin := element_le hi hlt e
  have helements := ho.elements
  have hheader := ho.header
  have hgrown := hl.grown
  have hroom : q.toNat + d.kind.width ≤ l.size := by omega
  have hstored := stored_of_store (hl.store_element ho hq hd)
  rw [final, hl.store_element ho hq hd]
  refine ⟨hl.grown.trans_eq hstored.size.symm, hl.guarded, ?_, fun j hj hjlt => ?_⟩
  · refine hl.header.overwrite (.inl ?_)
    rw [d.length_bytes]
    omega
  · rw [held_concat]
    by_cases hij : i = j
    · -- The low bytes are the datum's, and the high ones are as before.
      subst hij
      obtain ⟨r, rfl⟩ := Nat.exists_eq_add_of_le hd
      have hhigh : numberAt { l with mem := overwrite l.mem q.toNat d.bytes }
          (q.toNat + d.kind.width) r = l.numberAt (q.toNat + d.kind.width) r :=
        numberAt_congr fun j _ => hstored.elsewhere _ (by omega)
      rw [if_pos rfl, ← hl.elements i hi hlt, ← hplace, numberAt_div, numberAt_add, hhigh,
        numberAt_overwrite hroom, Nat.mul_comm, Nat.add_comm]
    · rw [if_neg hij, ← hl.elements j hj hjlt]
      have hapart := element_apart hi hj hij e
      exact numberAt_congr fun b _ => hstored.elsewhere _ (by omega)

/-- The array stands in every later heap. -/
theorem Later.represents (hmade : Represents h k a count e [] k) (hl : Later h k a e log l)
    (hsize : l.size < 2 ^ 63) : Represents h k a count e log l := by
  induction hl with
  | made => exact hmade
  | op o hop _ ih => exact (ih (Nat.lt_of_le_of_lt (o.size_le _) hsize)).op ho hop hsize
  | elsewhere p d hp _ ih =>
    refine (ih ?_).elsewhere ho hp
    rwa [← size_final_store p d]
  | element d hq hd _ ih =>
    refine (ih ?_).element ho hq hd
    rwa [← size_final_store]

/-- A load from an element gives the low bytes of what it holds. -/
theorem Represents.loadCell_eq (hl : Represents h k a count e log l) {i : Int32}
    (hq : l.arrayElement a i = .ok q) {kind : CellKind} (hkind : kind.width ≤ e) :
    Machine.loadCell kind q l = .ok (kind.ofNumber (held i log % 256 ^ kind.width)) := by
  obtain ⟨hi, hlt, hplace⟩ := hl.of_arrayElement ho hq
  have hin := element_le hi hlt e
  have hreserved := ho.reserved
  have helements := ho.elements
  have hheader := ho.header
  have hgrown := hl.grown
  have hspans : l.Spans q kind.width := ⟨by omega, by omega⟩
  rw [loadCell_of_spans hspans, ← numberAt_mod l q.toNat hkind, hplace, hl.elements i hi hlt]

theorem Represents.arrayLength_eq (hl : Represents h k a count e log l) :
    l.arrayLength a = .ok count := by
  have hreserved := ho.reserved
  have helements := ho.elements
  refine arrayLength_of_holdsAt hl.header (by omega) ?_
  rw [ho.header]
  exact hl.grown

end

/-! ## What elements hold -/

section

variable {i : Int32} {log after : List (Int32 × Datum)}

theorem held_append (log : List (Int32 × Datum)) (hafter : ∀ x ∈ after, x.1 ≠ i) :
    held i (log ++ after) = held i log := by
  induction after generalizing log with
  | nil => rw [List.append_nil]
  | cons x after ih =>
    rw [List.append_cons, ih _ fun y hy => hafter y (List.mem_cons_of_mem _ hy), held_concat,
      if_neg (hafter x List.mem_cons_self)]

/-- Without a store an element holds zero. -/
theorem held_of_forall_ne (hlog : ∀ x ∈ log, x.1 ≠ i) : held i log = 0 :=
  held_append [] hlog

/-- The last store to an element is what its low bytes are. -/
theorem held_last (before : List (Int32 × Datum)) (d : Datum) (hafter : ∀ x ∈ after, x.1 ≠ i) :
    held i (before ++ (i, d) :: after) % 256 ^ d.kind.width = d.number := by
  rw [List.append_cons, held_append _ hafter, held_concat, if_pos rfl, Nat.mul_add_mod_self_right,
    Nat.mod_eq_of_lt d.number_lt]

end

/-! ## New arrays -/

theorem Later.size_le {a : Addr} {log : List (Int32 × Datum)} (hl : Later h k a e log l) :
    k.size ≤ l.size := by
  induction hl with
  | made => exact Nat.le_refl _
  | op o _ _ ih => exact Nat.le_trans ih (o.size_le _)
  | elsewhere p d _ _ ih => rwa [size_final_store]
  | element d _ _ _ ih => rwa [size_final_store]

/-- Only what fits into an element is stored there. -/
theorem Later.width_le {a : Addr} {log : List (Int32 × Datum)} (hl : Later h k a e log l) :
    ∀ x ∈ log, x.2.kind.width ≤ e := by
  induction hl with
  | made => exact List.forall_mem_nil _
  | op _ _ _ ih => exact ih
  | elsewhere _ _ _ _ ih => exact ih
  | element d _ hd _ ih =>
    intro x hx
    rcases List.mem_append.1 hx with hx | hx
    · exact ih x hx
    · obtain rfl := List.mem_singleton.1 hx
      exact hd

section

variable {a : Addr} {count : Int32} (hreserved : wordSize ≤ h.size) (he : e < 2 ^ 31)
  (halloc : allocArray count e h = .ok a k) (hsize : k.size < 2 ^ 63)
include hreserved he halloc hsize

/-- An array that was allocated has its two blocks where `h` ended, and the elements are
    zero. -/
theorem made_of_allocArray (hguard : h.guardHi ≤ h.size) :
    Occupies h k a count e ∧ Represents h k a count e [] k := by
  obtain ⟨n, hn, hcount, rfl, rfl⟩ := allocArray_eq_ok halloc
  have hn' := elementsSize_eq hcount (Nat.lt_trans he (by decide)) hn
  have hpadded := le_padded n
  have hgrown : (h.grantedArray n count e).size = h.size + padded n + headerSize := by
    rw [grantedArray, size_granted, size_granted]
    rfl
  have haddr : (addrOf (h.granted n []).size).toNat = h.size + padded n := by
    rw [size_granted]
    exact toNat_addrOf (by omega)
  constructor
  · exact ⟨hreserved, by omega, by omega, hsize, hcount, by omega⟩
  · have hbuilding := building_grantedArray h n count e
    refine ⟨Nat.le_refl _, hbuilding.extend.guardHi.trans_le hguard, ?_, fun i hi hlt => ?_⟩
    · rw [haddr]
      exact hbuilding.header
    · have hin := element_le hi hlt e
      -- The block of the elements is zero from its start to its end.
      have hblock : (Block.mk h.size n []).initialBytes = List.replicate (padded n) 0 := by
        rw [Block.initialBytes, List.nil_append, List.length_nil, Nat.sub_zero]
      have hempty : ([] : Bytes).length ≤ n := Nat.zero_le n
      have hzero := (holdsAt_initialBytes h hempty).granted headerSize
        (headerBytes count e (addrOf h.size))
      rw [hblock] at hzero
      refine Finset.sum_eq_zero fun j hj => ?_
      have hj' := Finset.mem_range.1 hj
      have hbyte := hzero (i.toInt.toNat * e + j) (by rw [List.length_replicate]; omega)
      rw [byteAt, Nat.add_assoc, grantedArray, hbyte, List.getElem?_replicate_of_lt (by omega)]
      exact Nat.zero_mul _

end

end CZero.Heap

namespace CZero.Machine

open CZero.Action Heap

/-- Arrays are functional arrays. An array of elements of `e` bytes was allocated in a heap
    of a machine, and later steps have led to the heap `l`: allocations, stores to memory
    that the array does not lie in, and the stores of the log, each to an element that was
    looked up and of no more than `e` bytes.

    * The array has the same length, and exactly the elements below it are found, each where
      it was at first.
    * The elements lie in their block, which ends before the header, and apart from each
      other; a store to one of them is always granted.
    * What a load of an element gives is known from the stores to that element: the low
      bytes of what it holds, and that is zero without a store and else, at the width of
      the last one, what was stored last. -/
theorem arrays_functional {m : Machine}
    (hm : ∀ n, some n ∈ m.natives → n ∈ Library.table ∨ n.LetsHeapEvolve) {h k l : Heap}
    (hh : m.HasHeap h) {count : Int32} {e : Nat} (he : e ≤ 255) {a : Addr}
    (halloc : allocArray count e h = .ok a k) {log : List (Int32 × Datum)}
    (hlater : Later h k a e log l) (hsize : l.size < 2 ^ 63) :
    (l.arrayLength a = .ok count ∧ ∀ i, l.arrayElement a i = k.arrayElement a i ∧
      ((∃ q, l.arrayElement a i = .ok q) ↔ 0 ≤ i ∧ i < count)) ∧
    (∀ i q, l.arrayElement a i = .ok q →
      h.size ≤ q.toNat ∧ q.toNat + e ≤ h.size + count.toInt.toNat * e) ∧
    (h.size + count.toInt.toNat * e ≤ a.toNat ∧ a.toNat + headerSize = k.size) ∧
    (∀ i j q r, i ≠ j → l.arrayElement a i = .ok q → l.arrayElement a j = .ok r →
      q.toNat + e ≤ r.toNat ∨ r.toNat + e ≤ q.toNat) ∧
    ∀ i q, l.arrayElement a i = .ok q →
      (∀ d : Datum, d.kind.width ≤ e → ∃ l', d.store q l = .ok () l') ∧
      (∀ kind : CellKind, kind.width ≤ e →
        loadCell kind q l = .ok (kind.ofNumber (held i log % 256 ^ kind.width)) ∧
        ((∀ x ∈ log, x.1 ≠ i) → loadCell kind q l = .ok (kind.ofNumber 0))) ∧
      ∀ before after d, log = before ++ (i, d) :: after → (∀ x ∈ after, x.1 ≠ i) →
        loadCell d.kind q l = .ok d.cell := by
  have hholds := holds_of_hasHeap hm hh
  have hplaced := hholds.le_size
  have hbounded : k.size < 2 ^ 63 := Nat.lt_of_le_of_lt hlater.size_le hsize
  obtain ⟨ho, hmade⟩ :=
    made_of_allocArray (by omega) (by omega) halloc hbounded (by rw [hholds.hi]; omega)
  have hl := hlater.represents ho hmade hsize
  refine ⟨⟨hl.arrayLength_eq ho, fun i => ⟨?_, ?_⟩⟩, fun i q hq => ?_, ⟨ho.elements, ho.header⟩,
    fun i j q r hij hq hr => ?_, fun i q hq => ⟨fun d hd => ?_, fun kind hkind => ?_, ?_⟩⟩
  · rw [hl.arrayElement_eq ho, hmade.arrayElement_eq ho]
  · constructor
    · rintro ⟨q, hq⟩
      obtain ⟨hi, hlt, -⟩ := hl.of_arrayElement ho hq
      exact ⟨hi, hlt⟩
    · rintro ⟨hi, hlt⟩
      refine ⟨_, (hl.arrayElement_eq ho i).trans (if_neg ?_)⟩
      rw [not_or, Int32.not_lt, Int32.not_le]
      exact ⟨hi, hlt⟩
  · obtain ⟨hi, hlt, hplace⟩ := hl.of_arrayElement ho hq
    have hin := element_le hi hlt e
    omega
  · obtain ⟨hi, -, hplace⟩ := hl.of_arrayElement ho hq
    obtain ⟨hj, -, hplace'⟩ := hl.of_arrayElement ho hr
    have hapart := element_apart hi hj hij e
    omega
  · exact ⟨_, hl.store_element ho hq hd⟩
  · have hload := hl.loadCell_eq ho hq hkind
    refine ⟨hload, fun hnone => ?_⟩
    rw [hload, held_of_forall_ne hnone, Nat.zero_mod]
  · rintro before after d rfl hafter
    have hd : d.kind.width ≤ e := hlater.width_le (i, d) (by simp)
    rw [hl.loadCell_eq ho hq hd, held_last before d hafter, d.ofNumber_number]

/-- A machine without a program. -/
def idle : Machine where
  program := {}
  natives := #[]

/-- Its heap. -/
def unused : Heap :=
  (idle.boot 0 {}).host.heap

/-- The heap with an array of three elements of 8 bytes, whose header is at the address 40. -/
def withArray : Heap :=
  final (allocArray 3 8) unused

/-- The heap when a pointer has gone into the second element, a string has been allocated
    behind the array and changed, and an integer has gone into the third element. -/
def filled : Heap :=
  final ((Datum.int (-1)).store 32) (final ((Datum.char 0x63).store 56)
    ((Op.allocString [0x61, 0x62]).apply (final ((Datum.ptr 77).store 24) withArray)))

theorem arrays_functional_filled :
    idle.HasHeap unused ∧ allocArray 3 8 unused = .ok 40 withArray ∧
      Later unused withArray 40 8 [(1, .ptr 77), (2, .int (-1))] filled ∧
      filled.arrayLength 40 = .ok 3 ∧ loadCell .ptr 24 filled = .ok (.ptr 77) ∧
      loadCell .int 32 filled = .ok (.int (-1)) ∧
      loadCell .ptr 32 filled = .ok (.ptr 0xffffffff) := by
  have hm : ∀ n, some n ∈ idle.natives → n ∈ Library.table ∨ n.LetsHeapEvolve := by
    intro n hn
    cases hn.val
  have hh : idle.HasHeap unused := .kept (.boot 0 {})
  obtain ⟨_, _, ⟨rfl, rfl⟩, halloc⟩ : ∃ a k, (a = 40 ∧ k = withArray) ∧
      allocArray 3 8 unused = .ok a k := EndsIn.exists_eq_ok (by decide +kernel)
  have hmade : Later unused withArray 40 8 [] withArray := .made
  have hlater : Later unused withArray 40 8 [(1, .ptr 77), (2, .int (-1))] filled := hmade
    |>.element (i := 1) (q := 24) (.ptr 77) (by decide +kernel) (by decide)
    |>.op (.allocString [0x61, 0x62]) (.inl rfl)
    |>.elsewhere 56 (.char 0x63) (.inr (by decide +kernel))
    |>.element (i := 2) (q := 32) (.int (-1)) (by decide +kernel) (by decide)
  obtain ⟨⟨hlength, -⟩, -, -, -, helements⟩ :=
    arrays_functional hm hh (by decide) halloc hlater (by decide +kernel)
  obtain ⟨-, -, hlast⟩ := helements 1 24 (by decide +kernel)
  obtain ⟨-, hload, hlast'⟩ := helements 2 32 (by decide +kernel)
  refine ⟨hh, halloc, hlater, hlength, ?_, ?_, ?_⟩
  · exact hlast [] [(2, .int (-1))] (.ptr 77) rfl (by decide)
  · exact hlast' [(1, .ptr 77)] [] (.int (-1)) rfl (by decide)
  · exact (hload .ptr (by decide)).1

end CZero.Machine
