import CZero.Proofs.Heap.Fresh
import CZero.Proofs.Natives

/-!
# Arrays that are filled element by element

An array is two blocks, elements and header, and after they were allocated its elements
are stored one by one. Meanwhile more blocks may follow, if the elements are strings. Such
an array *under construction* (`Building`) has its header in place, so its elements are
found where they are (`Building.arrayElement_eq`), and storing them changes no byte of the
heap that it is built behind. What has been stored stays (`Filled.store`).

The three kinds of arrays that native functions build differ in how the bytes of an element
are made, and are filled alike (`fillWith`). So an array has the elements that it was to
have, or it was refused by the limit or for its length (`allocWith_endsIn`). Without a limit
it is there and its elements are read, unless they are too many (`BuildsArray`). And whatever
native functions build is built behind the heap (`Native.Build.buildsBehind`).
-/

namespace CZero.Heap

open CZero.Action

variable {h k : Heap}

/-! ## Arrays under construction -/

/-- The elements of an array are found through its header. -/
theorem arrayElement_of_header {p elems : Addr} {count : Int32} {eltSize : Int}
    (hp : p ≠ Addr.null) (hload : h.load p headerSize = .ok (headerBytes count eltSize elems))
    (i : Int32) :
    h.arrayElement p i = if i < 0 ∨ count ≤ i then .error (.fault (.arrayIndex i count))
      else .ok (elems +
        (Int64.ofInt (i.toInt * (Int32.ofInt eltSize).toInt)).toUInt64) := by
  have hlength (n : Int32) : (intBytes n).length = 4 := length_intBytes n
  have hcount : (headerBytes count eltSize elems).take 4 = intBytes count := by
    rw [headerBytes, List.append_assoc, List.take_left' (hlength count)]
  have heltSize : ((headerBytes count eltSize elems).drop 4).take 4 =
      intBytes (Int32.ofInt eltSize) := by
    rw [headerBytes, List.append_assoc, List.drop_left' (hlength count),
      List.take_left' (hlength _)]
  have helems : (headerBytes count eltSize elems).drop 8 = ptrBytes elems := by
    rw [headerBytes]
    exact List.drop_left' (by simp [intSize])
  rw [arrayElement, if_neg hp, hload]
  simp only [bind, Except.bind, hcount, heltSize, helems, intOfBytes_intBytes,
    ptrOfBytes_ptrBytes]
  split <;> rfl

/-- An array of `count` elements of `w` bytes is under construction behind `h`: in `k`, the
    `n` bytes of its elements and then its header stand behind `h`. -/
structure Building (h : Heap) (n : Nat) (count : Int32) (w : Nat) (k : Heap) : Prop where
  extend : h.Extends k
  header : k.HoldsAt (h.size + padded n) (headerBytes count w (addrOf h.size))
  room : h.size + padded n + headerSize ≤ k.size

section

variable {n w : Nat} {count : Int32}

theorem building_grantedArray (h : Heap) (n : Nat) (count : Int32) (w : Nat) :
    Building h n count w (h.grantedArray n count w) where
  extend := IsTrans.trans _ _ _ (extends_granted h n []) (extends_granted _ headerSize _)
  header := by
    rw [← size_granted h n []]
    exact holdsAt_granted _ (Nat.le_of_eq (length_headerBytes _ _ _))
  room := by
    rw [grantedArray, size_granted, size_granted]
    exact Nat.le_refl _

/-- More blocks may follow. -/
theorem Building.extends (hk : Building h n count w k) {l : Heap} (hl : k.Extends l) :
    Building h n count w l where
  extend := IsTrans.trans _ _ _ hk.extend hl
  header := hl.holdsAt hk.header
  room := Nat.le_trans hk.room hl.size

/-- An element is stored in front of the header. -/
theorem Building.overwrite (hk : Building h n count w k) {i : Nat} {bs : Bytes} (hi : h.size ≤ i)
    (hin : i + bs.length ≤ h.size + padded n) :
    Building h n count w { k with mem := overwrite k.mem i bs } where
  extend := hk.extend.overwrite hi bs
  header := hk.header.overwrite (.inl hin)
  room := Nat.le_trans hk.room (Nat.le_of_eq (size_overwrite _ _ _).symm)

/-- The address of the element `i`, for addresses that do not wrap around. -/
theorem addrOf_add_element (a : Nat) {i : Int32} (hi : 0 ≤ i) {w : Nat} (hw : w < 2 ^ 31) :
    addrOf a + (Int64.ofInt (i.toInt * (Int32.ofInt w).toInt)).toUInt64 =
      addrOf (a + i.toInt.toNat * w) := by
  obtain ⟨j, hj⟩ := Int.eq_ofNat_of_zero_le (Int32.le_iff_toInt_le.1 hi)
  have hwidth : (Int32.ofInt w).toInt = w := Int32.toInt_ofInt_of_le (by omega) (by omega)
  rw [hwidth, hj, ← Int.natCast_mul, Int.toNat_natCast, addrOf, addrOf, UInt64.ofNat_add]
  rfl

/-- The elements of an array are found behind each other, from the index in its header on. -/
theorem arrayElement_of_holdsAt {a : Nat} {p : Addr}
    (hheader : h.HoldsAt p.toNat (headerBytes count w (addrOf a))) (hreserved : wordSize ≤ p.toNat)
    (hroom : p.toNat + headerSize ≤ h.size) (hw : w < 2 ^ 31) (i : Int32) :
    h.arrayElement p i = if i < 0 ∨ count ≤ i then .error (.fault (.arrayIndex i count))
      else .ok (addrOf (a + i.toInt.toNat * w)) := by
  have hlength := length_headerBytes count w (addrOf a)
  have hload : h.load p headerSize = .ok (headerBytes count w (addrOf a)) := by
    rw [← hlength] at hroom ⊢
    exact hheader.load_eq hreserved hroom
  rw [arrayElement_of_header (ne_null_of_le hreserved) hload]
  by_cases hi : i < 0 ∨ count ≤ i
  · rw [if_pos hi, if_pos hi]
  · rw [if_neg hi, if_neg hi, addrOf_add_element _ (Int32.not_lt.1 (not_or.1 hi).1) hw]

/-- The length of an array is the count in its header. -/
theorem arrayLength_of_holdsAt {p elems : Addr} {eltSize : Int}
    (hheader : h.HoldsAt p.toNat (headerBytes count eltSize elems)) (hreserved : wordSize ≤ p.toNat)
    (hroom : p.toNat + headerSize ≤ h.size) : h.arrayLength p = .ok count := by
  have hcount : h.HoldsAt p.toNat (intBytes count) := by
    refine hheader.front ?_
    rw [headerBytes, List.append_assoc]
    exact List.prefix_append _ _
  have hload : h.load p intSize = .ok (intBytes count) := by
    rw [← length_intBytes count]
    refine hcount.load_eq hreserved ?_
    rw [headerSize] at hroom
    rw [length_intBytes, intSize]
    omega
  rw [arrayLength, if_neg (ne_null_of_le hreserved), loadInt, hload]
  exact congrArg Except.ok (intOfBytes_intBytes count)

/-- The elements of an array under construction are found in their block. -/
theorem Building.arrayElement_eq (hk : Building h n count w k) (hh : h.Placed) {p : Addr}
    (hp : p.toNat = h.size + padded n) (hw : w < 2 ^ 31) (i : Int32) :
    k.arrayElement p i = if i < 0 ∨ count ≤ i then .error (.fault (.arrayIndex i count))
      else .ok (addrOf (h.size + i.toInt.toNat * w)) := by
  refine arrayElement_of_holdsAt ?_ ?_ ?_ hw i <;> rw [hp]
  · exact hk.header
  · exact Nat.le_add_right_of_le hh.reserved
  · exact hk.room

/-- An element ends where the elements of the array do, or before. -/
theorem element_le {i : Int32} (hi : 0 ≤ i) (hlt : i < count) (w : Nat) :
    i.toInt.toNat * w + w ≤ count.toInt.toNat * w := by
  have hzero : 0 ≤ i.toInt := Int32.le_iff_toInt_le.1 hi
  have hbelow := Int32.lt_iff_toInt_lt.1 hlt
  calc
    i.toInt.toNat * w + w = (i.toInt.toNat + 1) * w := (Nat.succ_mul _ _).symm
    _ ≤ count.toInt.toNat * w := Nat.mul_le_mul_right w (by omega)

/-- Bytes that lie inside the block of the elements are stored. -/
theorem Building.store_eq (hk : Building h n count w k) (hh : h.Placed)
    (hsize : h.size + padded n < 2 ^ 64) {i : Nat} {bs : Bytes} (hi : h.size ≤ i)
    (hin : i + bs.length ≤ h.size + padded n) :
    Heap.store (addrOf i) bs k = .ok () { k with mem := Heap.overwrite k.mem i bs } := by
  have hp : (addrOf i).toNat = i := toNat_addrOf (by omega)
  have hroom := hk.room
  have hreserved := hh.reserved
  have hguarded := hh.guarded
  refine (store_of_free ?_ ?_ ?_).trans ?_ <;> rw [hp]
  · omega
  · omega
  · rw [hk.extend.guardHi]
    omega

/-! ## Filling an array -/

/-- Make the bytes of elements one by one and store them in the array at `p`, from the
    element `i` on. -/
def fillWith {α : Type} (make : α → Action Heap Bytes) (p : Addr) (i : Int32) :
    List α → Action Heap Unit
  | [] => pure ()
  | x :: xs => do
    let bs ← make x
    let q ← Action.ofResult ((← get).arrayElement p i)
    store q bs
    fillWith make p (i + 1) xs

/-- Allocate an array of elements of `w` bytes and fill it. -/
def allocWith {α : Type} (make : α → Action Heap Bytes) (w : Nat) (xs : List α) :
    Action Heap Addr := do
  let p ← allocArray (Int32.ofNat xs.length) w
  fillWith make p 0 xs
  return p

theorem toInt_add_one {i count : Int32} (hi : i < count) : (i + 1).toInt = i.toInt + 1 := by
  have hlt := Int32.lt_iff_toInt_lt.1 hi
  have hcount := count.toInt_lt
  have hlow := i.le_toInt
  rw [Int32.toInt_add]
  exact Int.bmod_eq_of_le (by change _ ≤ i.toInt + 1; omega) (by change i.toInt + 1 < _; omega)

theorem toInt_sub_one {i : Int32} (hi : 0 < i) : (i - 1).toInt = i.toInt - 1 := by
  have hpos := Int32.lt_iff_toInt_lt.1 hi
  have hlt := i.toInt_lt
  rw [Int32.toInt_zero] at hpos
  rw [Int32.toInt_sub]
  exact Int.bmod_eq_of_le (by change _ ≤ i.toInt - 1; omega) (by change i.toInt - 1 < _; omega)

theorem nonneg_iff_toInt {i : Int32} : 0 ≤ i ↔ 0 ≤ i.toInt := by
  rw [Int32.le_iff_toInt_le, Int32.toInt_zero]

/-! ## What the elements hold -/

/-- `l` has all bytes that `k` has from the index `i` on. -/
structure KeepsFrom (i : Nat) (k l : Heap) : Prop where
  size : k.size ≤ l.size
  bytes : ∀ j, i ≤ j → j < k.size → l.mem[j]? = k.mem[j]?

theorem Extends.keepsFrom (hk : h.Extends k) (i : Nat) : KeepsFrom i h k where
  size := hk.size
  bytes j _ hj := hk.bytes j hj

theorem keepsFrom_overwrite {i j : Nat} {bs : Bytes} (hj : j + bs.length ≤ i) :
    KeepsFrom i k { k with mem := overwrite k.mem j bs } where
  size := Nat.le_of_eq (size_overwrite _ _ _).symm
  bytes _ hi _ := getElem?_overwrite_of_outside (.inr (Nat.le_trans hj hi))

variable {α : Type} {make : α → Action Heap Bytes} {M : α → Bytes → Heap → Prop}
  {done xs : List α} {x : α}

/-- The elements of an array of `n` bytes are made while it is under construction. The bytes
    of an element are `w` and stand for it in the sense of `M`, and that does not change
    whatever happens up to the end of the block of the elements; or the limit refuses them. -/
structure MakesElements (h : Heap) (n w : Nat) (make : α → Action Heap Bytes)
    (M : α → Bytes → Heap → Prop) : Prop where
  makes : ∀ count k x, Building h n count w k →
    EndsIn (fun bs l => bs.length = w ∧ M x bs l ∧ k.Extends l)
      (fun e l => e = .fault (.heapLimit h.limit) ∧ 0 < h.limit ∧ k.Extends l) (make x k)
  keeps : ∀ x bs k l, KeepsFrom (h.size + padded n) k l → M x bs k → M x bs l

/-- The first elements of an array under construction are `xs`. -/
structure Filled (h : Heap) (n : Nat) (count : Int32) (w : Nat) (M : α → Bytes → Heap → Prop)
    (xs : List α) (k : Heap) : Prop extends Building h n count w k where
  length : xs.length ≤ count.toInt.toNat
  elements : ∀ i x, xs[i]? = some x →
    ∃ bs, bs.length = w ∧ M x bs k ∧ k.HoldsAt (h.size + i * w) bs

theorem Filled.extends (hmake : MakesElements h n w make M) (hk : Filled h n count w M xs k)
    {l : Heap} (hl : k.Extends l) : Filled h n count w M xs l where
  toBuilding := hk.toBuilding.extends hl
  length := hk.length
  elements i x hx := by
    obtain ⟨bs, hbs, hM, hholds⟩ := hk.elements i x hx
    exact ⟨bs, hbs, hmake.keeps x bs k l (hl.keepsFrom _) hM, hl.holdsAt hholds⟩

/-- The next element is stored behind those that are there. -/
theorem Filled.store (hmake : MakesElements h n w make M) (hh : h.Placed)
    (hsize : h.size + padded n < 2 ^ 64) (hn : n = count.toInt.toNat * w)
    (hk : Filled h n count w M done k) (hlt : done.length < count.toInt.toNat) {bs : Bytes}
    (hbs : bs.length = w) (hM : M x bs k) :
    ∃ l, store (addrOf (h.size + done.length * w)) bs k = .ok () l ∧
      Filled h n count w M (done ++ [x]) l := by
  have hend : done.length * w + w ≤ n := by
    rw [hn, ← Nat.succ_mul]
    exact Nat.mul_le_mul_right w hlt
  have hpadded := le_padded n
  have hroom := hk.room
  refine ⟨_, hk.store_eq hh hsize (Nat.le_add_right _ _) (by omega), ?_, ?_, ?_⟩
  · exact hk.overwrite (Nat.le_add_right _ _) (by omega)
  · rw [List.length_append, List.length_singleton]
    exact hlt
  intro i y hy
  rcases Nat.lt_trichotomy i done.length with hi | rfl | hi
  · -- An element that was there is not touched.
    rw [List.getElem?_append_left hi] at hy
    obtain ⟨cs, hcs, hM', hholds⟩ := hk.elements i y hy
    have hbefore : i * w + w ≤ done.length * w := by
      rw [← Nat.succ_mul]
      exact Nat.mul_le_mul_right w hi
    refine ⟨cs, hcs, hmake.keeps y cs k _ (keepsFrom_overwrite (by omega)) hM', ?_⟩
    exact hholds.overwrite (.inr (by omega))
  · rw [List.getElem?_concat_length] at hy
    cases hy
    exact ⟨bs, hbs, hmake.keeps x bs k _ (keepsFrom_overwrite (by omega)) hM,
      holdsAt_overwrite (by omega)⟩
  · rw [List.getElem?_eq_none (by simpa [Nat.succ_le_iff] using hi)] at hy
    cases hy

/-- Filling stores one element after the other. It stops at the limit, or behind the last
    element if there is more to store. -/
theorem fillWith_endsIn (hmake : MakesElements h n w make M) (hh : h.Placed)
    (hsize : h.size + padded n < 2 ^ 64) {p : Addr} (hp : p.toNat = h.size + padded n)
    (hw : w < 2 ^ 31) (hn : n = count.toInt.toNat * w) (hcount : 0 ≤ count) (xs : List α)
    {i : Int32} (hi : i.toInt = done.length) (hk : Filled h n count w M done k) :
    EndsIn (fun _ l => Filled h n count w M (done ++ xs) l)
      (fun e l => h.Extends l ∧ (e = .fault (.heapLimit h.limit) ∧ 0 < h.limit ∨
        (∃ j c, e = .fault (.arrayIndex j c)) ∧
          count.toInt.toNat < done.length + xs.length))
      (fillWith make p i xs k) := by
  induction xs generalizing done i k with
  | nil =>
    rw [List.append_nil]
    exact hk
  | cons x xs ih =>
    rw [fillWith]
    refine EndsIn.bind ((hmake.makes count k x hk.toBuilding).mono (fun _ _ h => h) ?_) ?_
    · rintro e l ⟨he, hlimit, hl⟩
      exact ⟨IsTrans.trans _ _ _ hk.extend hl, .inl ⟨he, hlimit⟩⟩
    rintro bs l ⟨hbs, hM, hkl⟩
    have hl := hk.extends hmake hkl
    have hpos : 0 ≤ i := nonneg_iff_toInt.2 (by omega)
    have hzero := nonneg_iff_toInt.1 hcount
    rw [bind_of_ok (get_apply l), hl.arrayElement_eq hh hp hw, hi, Int.toNat_natCast]
    by_cases hlast : count ≤ i
    · -- The array is full, though there is one more element.
      rw [if_pos (.inr hlast), bind_of_error (ofResult_error _ _)]
      refine ⟨hl.extend, .inr ⟨⟨i, count, rfl⟩, ?_⟩⟩
      have := Int32.le_iff_toInt_le.1 hlast
      rw [List.length_cons]
      omega
    · have hlt := Int32.not_le.1 hlast
      have hroom : done.length < count.toInt.toNat := by
        have := Int32.lt_iff_toInt_lt.1 hlt
        omega
      obtain ⟨l', hstore, hl'⟩ := hl.store hmake hh hsize hn hroom hbs hM
      rw [if_neg (not_or.2 ⟨Int32.not_lt.2 hpos, hlast⟩), bind_of_ok (ofResult_ok _ _),
        bind_of_ok hstore]
      have hnext : (i + 1).toInt = (done ++ [x]).length := by
        rw [toInt_add_one hlt, hi, List.length_append]
        rfl
      have hrest := ih hnext hl'
      rw [List.append_assoc, List.length_append, List.length_singleton] at hrest
      refine hrest.mono (fun _ _ h => h) fun e l h => ⟨h.1, h.2.imp_right ?_⟩
      rintro ⟨he, hover⟩
      refine ⟨he, ?_⟩
      rw [List.length_cons]
      omega

theorem elements_lt (hw : w ≤ wordSize) : count.toInt.toNat * w < 2 ^ 34 := by
  have hlt := count.toInt_lt
  calc
    count.toInt.toNat * w ≤ count.toInt.toNat * wordSize := Nat.mul_le_mul_left _ hw
    _ < 2 ^ 34 := by rw [wordSize]; omega

/-- An array of a length that is a count is refused by the limit only. -/
theorem allocArray_of_nonneg (hcount : 0 ≤ count) (hw : w ≤ 255)
    (hn : n = count.toInt.toNat * w) :
    allocArray count w h = .ok (addrOf (h.granted n []).size) (h.grantedArray n count w) ∨
      0 < h.limit ∧ (∃ k, allocArray count w h = .error (.fault (.heapLimit h.limit)) k ∧
        h.Extends k) := by
  have halloc := allocArray_of_width h hcount hw
  rw [← hn] at halloc
  have hpos {k : Heap} {m : Nat} (hm : k.overLimit m) : 0 < k.limit :=
    Int.not_le.1 fun hlimit => not_overLimit hlimit m hm
  split at halloc
  · exact .inr ⟨hpos ‹_›, h, halloc, refl h⟩
  · split at halloc
    · exact .inr ⟨hpos (k := h.granted n []) ‹_›, _, halloc, extends_granted h n []⟩
    · exact .inl halloc

/-- A count that is too small was counted beyond 32 bits. -/
theorem le_of_count_lt {m : Nat} (hcount : 0 ≤ Int32.ofNat m)
    (hlt : (Int32.ofNat m).toInt.toNat < m) : 2 ^ 32 ≤ m := by
  have hzero : 0 ≤ (Int32.ofNat m).toInt := Int32.le_iff_toInt_le.1 hcount
  have hmod : (Int32.ofNat m).toInt = (m : Int).bmod (2 ^ 32) := by
    rw [← Int32.ofInt_eq_ofNat]
    exact Int32.toInt_ofInt
  rw [hmod, Int.bmod_def] at hzero hlt
  split at hlt <;> omega

/-- An array that is filled has its elements. It fails if the limit refuses memory, and
    without a limit only if there are too many elements. -/
theorem allocWith_endsIn {M : Nat → α → Bytes → Heap → Prop}
    (hmake : ∀ n, MakesElements h n w make (M n)) (hh : h.Placed) (hsize : h.size < 2 ^ 63)
    (hw : w ≤ wordSize) (xs : List α) :
    EndsIn (fun p l => xs.length < 2 ^ 31 ∧ p.toNat = h.size + padded (xs.length * w) ∧
        Filled h (xs.length * w) (Int32.ofNat xs.length) w (M (xs.length * w)) xs l)
      (fun e l => Fails h xs.length e l ∧
        (h.limit ≤ 0 → 2 ^ 31 ≤ xs.length ∧ e.IsMemoryFault))
      (allocWith make w xs h) := by
  rw [allocWith]
  by_cases hcount : Int32.ofNat xs.length < 0
  · rw [bind_of_error (allocArray_neg h hcount w)]
    refine ⟨.unchanged _, fun _ => ⟨Nat.not_lt.1 fun hlt => ?_, trivial, _, rfl, rfl⟩⟩
    rw [Int32.lt_iff_toInt_lt, Int32.toInt_ofNat_of_lt hlt, Int32.toInt_zero] at hcount
    omega
  rw [Int32.not_lt] at hcount
  obtain ⟨n, hn⟩ : ∃ n, n = (Int32.ofNat xs.length).toInt.toNat * w := ⟨_, rfl⟩
  have hn' : n < 2 ^ 34 := hn ▸ elements_lt hw
  have hw' : w < 2 ^ 31 := Nat.lt_of_le_of_lt hw (by decide)
  rcases allocArray_of_nonneg hcount (Nat.le_trans hw (by decide)) hn with
    hok | ⟨hlimit, k, herror, hk⟩
  · have hpadded : padded n ≤ n + wordSize := by
      rw [padded, wordSize]
      omega
    rw [wordSize] at hpadded
    have hp : (addrOf (h.granted n []).size).toNat = h.size + padded n := by
      rw [size_granted]
      exact toNat_addrOf (by omega)
    have hempty : Filled h n (Int32.ofNat xs.length) w (M n) []
        (h.grantedArray n (Int32.ofNat xs.length) w) := by
      refine ⟨building_grantedArray h n _ w, Nat.zero_le _, ?_⟩
      rintro i x ⟨⟩
    have hfill := fillWith_endsIn (hmake n) hh (by omega) hp hw' hn hcount xs
      Int32.toInt_zero hempty
    rw [bind_of_ok hok]
    refine EndsIn.bind (hfill.mono (fun _ _ h => h) ?_) fun _ l hl => ?_
    · rintro e l ⟨hl, ⟨rfl, hlimit⟩ | ⟨⟨j, c, rfl⟩, hover⟩⟩
      · exact ⟨.refused hl, fun hnone => absurd hlimit (Int.not_lt.2 hnone)⟩
      · rw [List.length_nil, Nat.zero_add] at hover
        have hmany := le_of_count_lt hcount hover
        exact ⟨.miscounted hmany hl, fun _ => ⟨by omega, trivial, _, rfl, rfl⟩⟩
    · rw [List.nil_append] at hl
      have hlength := hl.length
      have hlt : xs.length < 2 ^ 31 := by
        have := (Int32.ofNat xs.length).toInt_lt
        omega
      rw [Int32.toInt_ofNat_of_lt hlt, Int.toNat_natCast] at hn
      subst hn
      exact ⟨hlt, hp, hl⟩
  · rw [bind_of_error herror]
    exact ⟨.refused hk, fun hnone => absurd hlimit (Int.not_lt.2 hnone)⟩

/-- An array that is filled is built behind the heap, unless its length was miscounted. -/
theorem allocWith_buildsBehind {M : Nat → α → Bytes → Heap → Prop}
    (hmake : ∀ n, MakesElements h n w make (M n)) (hh : h.Placed) (hsize : h.size < 2 ^ 63)
    (hw : w ≤ wordSize) (xs : List α) : BuildsBehind h xs.length (allocWith make w xs h) := by
  refine (allocWith_endsIn hmake hh hsize hw xs).mono ?_ fun _ _ h => h.1
  rintro p l ⟨-, hp, hl⟩
  refine ⟨⟨?_, ?_⟩, hl.extend⟩ <;> rw [hp]
  · exact Nat.dvd_add hh.aligned (wordSize_dvd_padded _)
  · exact Nat.le_add_right _ _

/-! ## The arrays that native functions build -/

/-- The bytes of an integer, as an element. -/
def intElement (n : Int32) : Action Heap Bytes :=
  pure (intBytes n)

/-- The bytes of a character, as an element. -/
def charElement (b : UInt8) : Action Heap Bytes :=
  pure [b]

/-- The bytes of the address of a string that is allocated, as an element. -/
def stringElement (s : Bytes) : Action Heap Bytes := do
  let a ← allocString s
  return ptrBytes a

/-- The bytes are the address of a string, which stands at the index `i` or behind it in a
    heap whose addresses do not wrap around. -/
def Refers (i : Nat) (s bs : Bytes) (k : Heap) : Prop :=
  k.size < 2 ^ 63 → ∃ r, bs = ptrBytes r ∧ i ≤ r.toNat ∧ k.loadString r = .ok (s.before 0)

theorem makesElements_intElement (h : Heap) (n : Nat) :
    MakesElements h n intSize intElement fun x bs _ => bs = intBytes x where
  makes _ k n _ := ⟨length_intBytes n, rfl, refl k⟩
  keeps _ _ _ _ _ hM := hM

theorem makesElements_charElement (h : Heap) (n : Nat) :
    MakesElements h n charSize charElement fun x bs _ => bs = [x] where
  makes _ k _ _ := ⟨rfl, rfl, refl k⟩
  keeps _ _ _ _ _ hM := hM

theorem makesElements_stringElement (hh : h.Placed) (n : Nat) :
    MakesElements h n ptrSize stringElement (Refers (h.size + padded n)) where
  makes count k s hk := by
    have halloc := allocString_eq k s
    rw [stringElement]
    split at halloc
    · rw [bind_of_error halloc, hk.extend.limit]
      refine ⟨rfl, Int.not_le.1 fun hlimit => ?_, refl k⟩
      exact not_overLimit (hk.extend.limit.trans_le hlimit) _ ‹_›
    · rw [bind_of_ok halloc]
      refine ⟨length_ptrBytes _, fun hsize => ?_, extends_granted k _ s⟩
      have hlt : k.size < 2 ^ 63 := by
        rw [size_granted] at hsize
        omega
      have hroom := hk.room
      refine ⟨_, rfl, ?_, loadString_granted (Nat.le_trans hh.reserved hk.extend.size) hlt s⟩
      rw [toNat_addrOf (by omega)]
      omega
  keeps s bs k l hl hM hsize := by
    obtain ⟨r, hr, hi, hs⟩ := hM (Nat.lt_of_le_of_lt hl.size hsize)
    obtain ⟨hlo, hnul, hbytes⟩ := loadString_eq_ok_iff_holdsAt.1 hs
    refine ⟨r, hr, hi, loadString_eq_ok_iff_holdsAt.2 ⟨hlo, hnul, ?_⟩⟩
    exact hbytes.of_bytes fun j hj _ hin => hl.bytes j (Nat.le_trans hi hj) hin

/-- What takes the elements as `fillWith` does is `fillWith`. -/
theorem eq_fillWith {p : Addr} {fill : Int32 → List α → Action Heap Unit}
    (hnil : ∀ i, fill i [] = pure ())
    (hcons : ∀ i x xs, fill i (x :: xs) = do
      let bs ← make x
      let q ← Action.ofResult ((← get).arrayElement p i)
      store q bs
      fill (i + 1) xs) (i : Int32) (xs : List α) : fill i xs = fillWith make p i xs := by
  induction xs generalizing i with
  | nil => exact hnil i
  | cons x xs ih => simp only [hcons, fillWith, ih]

theorem allocInts_eq (ns : List Int32) : allocInts ns = allocWith intElement intSize ns := by
  have hfill (p : Addr) : fillInts p 0 ns = fillWith intElement p 0 ns :=
    eq_fillWith (fun _ => rfl) (fun _ _ _ => rfl) 0 ns
  simp only [allocInts, allocWith, hfill]

theorem allocStrings_eq (ss : List Bytes) :
    allocStrings ss = allocWith stringElement ptrSize ss := by
  have hfill (p : Addr) : fillStrings p 0 ss = fillWith stringElement p 0 ss :=
    eq_fillWith (fun _ => rfl) (fun _ _ _ => by rw [stringElement, bind_assoc]; rfl) 0 ss
  simp only [allocStrings, allocWith, hfill]

theorem allocChars_eq (bs : Bytes) : allocChars bs = allocWith charElement charSize bs := by
  have hfill (p : Addr) : fillChars p 0 bs = fillWith charElement p 0 bs :=
    eq_fillWith (fun _ => rfl) (fun _ _ _ => rfl) 0 bs
  simp only [allocChars, allocWith, hfill]

/-! ## Arrays that are read -/

/-- The array at `a` has the elements `xs`: it has their number, and of the address `q` at
    which an element `x` is found, `At x q` holds. -/
structure HasArray (h : Heap) (a : Addr) (xs : List α) (At : α → Addr → Prop) : Prop where
  length : ∃ n : Int32, n.toInt = xs.length ∧ h.arrayLength a = .ok n
  elements : ∀ (i : Int32) (x : α), 0 ≤ i → xs[i.toInt.toNat]? = some x →
    ∃ q, h.arrayElement a i = .ok q ∧ At x q

/-- An array stays, whatever comes behind the heap that it is in. -/
theorem HasArray.extends {a : Addr} {At At' : α → Addr → Prop} (ha : h.HasArray a xs At)
    (hk : h.Extends k) (hAt : ∀ x ∈ xs, ∀ q, At x q → At' x q) : k.HasArray a xs At' where
  length := by
    obtain ⟨n, hn, hlength⟩ := ha.length
    exact ⟨n, hn, hk.arrayLength hlength⟩
  elements i x hi hx := by
    obtain ⟨q, hq, hat⟩ := ha.elements i x hi hx
    exact ⟨q, hk.arrayElement hq, hAt x (List.mem_of_getElem? hx) q hat⟩

theorem HasArray.mono {a : Addr} {At At' : α → Addr → Prop} (ha : h.HasArray a xs At)
    (hAt : ∀ x q, At x q → At' x q) : h.HasArray a xs At' :=
  ha.extends (refl h) fun x _ q => hAt x q

/-- An array that was filled is read. -/
theorem Filled.hasArray (hh : h.Placed) (hsize : h.size + padded n < 2 ^ 64) {a : Addr}
    (ha : a.toNat = h.size + padded n) (hw : w < 2 ^ 31) (hn : n = xs.length * w)
    (hcount : count.toInt = xs.length) (hk : Filled h n count w M xs k) :
    k.HasArray a xs fun x q => ∃ bs, k.load q w = .ok bs ∧ M x bs k where
  length := by
    refine ⟨count, hcount, arrayLength_of_holdsAt (ha ▸ hk.header) ?_ (ha ▸ hk.room)⟩
    rw [ha]
    exact Nat.le_add_right_of_le hh.reserved
  elements i x hi hx := by
    obtain ⟨bs, hbs, hM, hholds⟩ := hk.elements _ x hx
    have hzero := nonneg_iff_toInt.1 hi
    obtain ⟨hlt, -⟩ := List.getElem?_eq_some_iff.1 hx
    have hin : i.toInt.toNat * w + w ≤ n := by
      rw [hn, ← Nat.succ_mul]
      exact Nat.mul_le_mul_right w hlt
    have hpadded := le_padded n
    have hroom := hk.room
    have hreserved := hh.reserved
    have hq : (addrOf (h.size + i.toInt.toNat * w)).toNat = h.size + i.toInt.toNat * w :=
      toNat_addrOf (by omega)
    refine ⟨_, (hk.arrayElement_eq hh ha hw i).trans (if_neg ?_), bs, ?_, hM⟩
    · rw [not_or, Int32.not_lt, Int32.not_le, Int32.lt_iff_toInt_lt]
      exact ⟨hi, by omega⟩
    · rw [← hq] at hholds
      have hload := hholds.load_eq (by omega) (by omega)
      rwa [hbs] at hload

/-- An array of the elements `xs` was built, unless there are too many. -/
abbrev BuildsArray (xs : List α) (At : α → Addr → Heap → Prop) :
    EStateM.Result Failure Heap Addr → Prop :=
  EndsIn (fun a l => xs.length < 2 ^ 31 ∧ l.HasArray a xs fun x q => At x q l)
    fun e _ => 2 ^ 31 ≤ xs.length ∧ e.IsMemoryFault

/-- Without a limit, an array gets its elements. -/
theorem allocWith_of_limit {M : Nat → α → Bytes → Heap → Prop}
    (hmake : ∀ n, MakesElements h n w make (M n)) (hh : h.Placed) (hsize : h.size < 2 ^ 63)
    (hw : w ≤ wordSize) (hlimit : h.limit ≤ 0) {At : α → Addr → Heap → Prop}
    (hread : ∀ n x bs q l, l.load q w = .ok bs → M n x bs l → At x q l) (xs : List α) :
    BuildsArray xs At (allocWith make w xs h) := by
  refine (allocWith_endsIn hmake hh hsize hw xs).mono ?_ fun _ _ h => h.2 hlimit
  rintro a l ⟨hlt, ha, hl⟩
  have hcount : (Int32.ofNat xs.length).toInt = xs.length := Int32.toInt_ofNat_of_lt hlt
  have hn : (Int32.ofNat xs.length).toInt.toNat * w < 2 ^ 34 := elements_lt hw
  rw [hcount, Int.toNat_natCast] at hn
  have hpadded : padded (xs.length * w) ≤ xs.length * w + wordSize := by
    rw [padded, wordSize]
    omega
  rw [wordSize] at hpadded
  refine ⟨hlt, ?_⟩
  refine (hl.hasArray hh (by omega) ha (Nat.lt_of_le_of_lt hw (by decide)) rfl hcount).mono ?_
  rintro x q ⟨bs, hbs, hM⟩
  exact hread _ x bs q l hbs hM

section

variable (hh : h.Placed) (hsize : h.size < 2 ^ 63) (hlimit : h.limit ≤ 0)
include hh hsize hlimit

theorem allocInts_of_limit (ns : List Int32) :
    BuildsArray ns (fun n q l => l.loadInt q = .ok n) (allocInts ns h) := by
  rw [allocInts_eq]
  refine allocWith_of_limit (makesElements_intElement h) hh hsize (by decide) hlimit ?_ ns
  rintro - n bs q l hload rfl
  rw [loadInt, hload]
  exact congrArg Except.ok (intOfBytes_intBytes n)

theorem allocChars_of_limit (bs : Bytes) :
    BuildsArray bs (fun b q l => l.loadByte q = .ok b) (allocChars bs h) := by
  rw [allocChars_eq]
  refine allocWith_of_limit (makesElements_charElement h) hh hsize (by decide) hlimit ?_ bs
  rintro - b bs q l hload rfl
  rw [loadByte, hload]
  rfl

/-- 2 ^ 32 characters are counted as none: the array that is allocated has no room for the
    first of them, and it is left in the heap. -/
theorem allocChars_of_wrapped {bs : Bytes} (hlength : bs.length = 2 ^ 32) :
    ∃ k, allocChars bs h = .error (.fault (.arrayIndex 0 0)) k ∧ h.size < k.size := by
  have hcount : Int32.ofNat bs.length = 0 := by
    rw [hlength]
    decide
  have halloc := allocArray_of_width (w := charSize) h (Int32.le_refl 0) (by decide)
  rw [if_neg (not_overLimit hlimit _),
    if_neg (not_overLimit (h := h.granted _ []) hlimit _)] at halloc
  have hbuilding := building_grantedArray h ((0 : Int32).toInt.toNat * charSize) 0 charSize
  have hgrown : h.size < (h.grantedArray ((0 : Int32).toInt.toNat * charSize) 0 charSize).size := by
    have := hbuilding.room
    rw [headerSize] at this
    omega
  refine ⟨_, ?_, hgrown⟩
  rw [allocChars, hcount, bind_of_ok halloc]
  cases bs with
  | nil => cases hlength
  | cons b bs =>
    refine bind_of_error ?_
    rw [fillChars, bind_of_ok (get_apply _), hbuilding.arrayElement_eq hh ?_ (by decide),
      if_pos (.inr (Int32.le_refl 0)), bind_of_error (ofResult_error _ _)]
    rw [size_granted]
    refine toNat_addrOf ?_
    have hpadded : padded ((0 : Int32).toInt.toNat * charSize) = wordSize := by decide
    rw [hpadded, wordSize]
    omega

theorem allocStrings_of_limit (ss : List Bytes) :
    BuildsArray ss (fun s q l => l.size < 2 ^ 63 →
      ∃ r, l.loadPtr q = .ok r ∧ l.loadString r = .ok (s.before 0)) (allocStrings ss h) := by
  rw [allocStrings_eq]
  refine allocWith_of_limit (makesElements_stringElement hh) hh hsize (by decide) hlimit ?_ ss
  intro n s bs q l hload hrefers hlt
  obtain ⟨r, rfl, -, hr⟩ := hrefers hlt
  refine ⟨r, ?_, hr⟩
  rw [loadPtr, hload]
  exact congrArg Except.ok (ptrOfBytes_ptrBytes r)

end

end

end CZero.Heap

namespace CZero.Native

open Heap

/-- How many elements a thing has that is built, if it is an array. -/
def Build.elements : Build → Nat
  | .string _ | .int _ | .bool _ => 0
  | .ints ns => ns.length
  | .strings ss => ss.length
  | .chars bs => bs.length

/-- Whatever is built is built behind the heap. -/
theorem Build.buildsBehind {h : Heap} (hh : h.Placed) (hsize : h.size < 2 ^ 63) (b : Build) :
    h.BuildsBehind b.elements (b.run h) := by
  cases b with
  | string s => exact allocString_buildsBehind hh hsize s 0
  | int n => exact boxInt_buildsBehind hh hsize n 0
  | bool b => exact boxBool_buildsBehind hh hsize b 0
  | ints ns =>
    rw [run, allocInts_eq]
    exact allocWith_buildsBehind (makesElements_intElement h) hh hsize (by decide) ns
  | strings ss =>
    rw [run, allocStrings_eq]
    exact allocWith_buildsBehind (makesElements_stringElement hh) hh hsize (by decide) ss
  | chars bs =>
    rw [run, allocChars_eq]
    exact allocWith_buildsBehind (makesElements_charElement h) hh hsize (by decide) bs

end CZero.Native
