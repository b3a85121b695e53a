import Mathlib.Algebra.Group.Nat.Defs
import CZero.Heap.Arrays
import CZero.Proofs.Action

/-!
# The operations of the heap, in full

What each operation gives, said once. An allocation that the limit grants appends a
block to the arena (`reserve_eq`, `allocString_eq`), a store replaces bytes that it
has checked (`store_eq_ok`), and a failed one of either kind leaves the heap alone.
A request for more than any host can give fails (`request_of_gt`), and only such a
request crashes.
An access is granted exactly if it lies in the arena behind the reserved word
(`check_eq_ok_iff`). A string is what stands before the first NUL (`loadString_eq`).

Reading never crashes: every slice is inside the arena because the check before it
passed.
-/

namespace CZero.Heap

open CZero.Action

/-! ## Bytes of the arena -/

@[simp] theorem size_overwrite (mem : Array UInt8) (i : Nat) (bs : Bytes) :
    (overwrite mem i bs).size = mem.size := by
  induction bs generalizing mem i with
  | nil => rfl
  | cons b bs ih => rw [overwrite, ih, Array.size_setIfInBounds]

/-- Writing behind the first part of an array leaves that part alone. -/
theorem overwrite_append (xs ys : Array UInt8) (j : Nat) (bs : Bytes) :
    overwrite (xs ++ ys) (xs.size + j) bs = xs ++ overwrite ys j bs := by
  induction bs generalizing ys j with
  | nil => rfl
  | cons b bs ih =>
    rw [overwrite, overwrite, Array.setIfInBounds_append_right (Nat.le_add_right _ _),
      Nat.add_sub_cancel_left, Nat.add_assoc, ih]

/-- A block of `n` bytes that holds `bs` and is zero behind. -/
def block (n : Nat) (bs : Bytes) : Array UInt8 :=
  overwrite (Array.replicate (padded n) 0) 0 bs

@[simp] theorem size_block (n : Nat) (bs : Bytes) : (block n bs).size = padded n := by
  rw [block, size_overwrite, Array.size_replicate]

theorem le_padded (n : Nat) : n ≤ padded n := by
  unfold padded
  omega

/-- Writing over the first part of an array. -/
theorem overwrite_zero (xs ys : Array UInt8) {bs : Bytes} (h : xs.size = bs.length) :
    overwrite (xs ++ ys) 0 bs = bs.toArray ++ ys := by
  obtain ⟨xs⟩ := xs
  obtain ⟨ys⟩ := ys
  induction bs generalizing xs with
  | nil =>
    obtain rfl := List.eq_nil_of_length_eq_zero h
    rfl
  | cons b bs ih =>
    cases xs with
    | nil => cases h
    | cons x xs =>
      -- The first byte is in its place; the others are written behind it.
      have hset : ((x :: xs).toArray ++ ys.toArray).setIfInBounds 0 b =
          #[b] ++ (xs.toArray ++ ys.toArray) := by
        simp
      rw [overwrite, hset, ← Nat.add_comm 0 1]
      refine (overwrite_append #[b] _ 0 bs).trans ?_
      rw [ih xs (Nat.succ.inj h)]
      simp

/-- A block is its contents and zeros behind them. -/
theorem block_eq {n : Nat} {bs : Bytes} (h : bs.length ≤ n) :
    block n bs = bs.toArray ++ Array.replicate (padded n - bs.length) 0 := by
  have hn := le_padded n
  rw [block, ← overwrite_zero (Array.replicate bs.length 0) _ Array.size_replicate,
    Array.replicate_append_replicate, Nat.add_sub_of_le (by omega)]

/-! ## Allocations -/

/-- The heap after a block of `n` bytes, which holds `bs`, was granted. -/
def granted (h : Heap) (n : Nat) (bs : Bytes) : Heap :=
  { h with used := h.used + n, mem := h.mem ++ block n bs }

@[simp] theorem size_granted (h : Heap) (n : Nat) (bs : Bytes) :
    (h.granted n bs).size = h.size + padded n := by
  simp [granted, size]

/-- Without a limit, no request would pass it. -/
theorem not_overLimit {h : Heap} (hlimit : h.limit ≤ 0) (n : Nat) : ¬h.overLimit n := by
  simp [overLimit, passesLimit, Int.not_lt.2 hlimit]

/-- The sum that is compared with the limit is one of 64 bits, and it does not wrap around
    while the bytes that were asked for can be counted in 63. -/
theorem overLimit_eq_wrapped (h : Heap) {n : Nat} (hn : h.used + n < 2 ^ 63) :
    h.overLimit n = h.passesLimit (Int.bmod (h.used + n) 0x10000000000000000) := by
  rw [overLimit, Int.bmod_eq_of_le (by omega) (by omega)]

theorem reserve_eq (h : Heap) (n : Nat) :
    reserve n h = if h.overLimit n then .error (.fault (.heapLimit h.limit)) h
      else .ok h.size (h.granted n []) := by
  unfold reserve
  split <;> rfl

/-- A host can give as many bytes as an operand says. -/
theorem toNat_le_maxBlock (n : UInt8) : n.toNat ≤ maxBlock :=
  Nat.le_trans (Nat.le_of_lt n.toNat_lt) (by decide)

theorem request_neg (h : Heap) {n : Int} (hn : n < 0) :
    request n h = .error (.fault (.negativeSize n)) h := by
  rw [request, if_pos hn]
  rfl

/-- A request that a host can answer is up to the limit. -/
theorem request_of_le {n : Nat} (hn : n ≤ maxBlock) : request n = reserve n := by
  rw [request, if_neg (by omega), if_pos (by omega), Int.toNat_natCast]

/-- A request for more is refused in one way or the other, and nothing has changed. -/
theorem request_of_gt (h : Heap) {n : Int} (hn : maxBlock < n) :
    request n h = .error (.fault (.heapLimit h.limit)) h ∨ request n h = .error .crash h := by
  rw [request, if_neg (by omega), if_neg (by omega), refuse]
  split
  · exact .inl rfl
  · exact .inr rfl

-- One byte has been asked for. The sum wraps around, and the limit of 100 lets it pass.
example : let h : Heap := { empty with used := 1, limit := 100 }
    request 0x7fffffffffffffff h = .error .crash h :=
  rfl

/-- A request is granted for as many bytes as a host can give, or refused without a change. -/
theorem request_cases (h : Heap) (n : Int) :
    (∃ e, request n h = .error e h) ∨ ∃ k : Nat, n = k ∧ k ≤ maxBlock ∧ ¬h.overLimit k ∧
      request n h = .ok h.size (h.granted k []) := by
  rcases Int.lt_or_le n 0 with hneg | hpos
  · exact .inl ⟨_, request_neg h hneg⟩
  obtain ⟨k, rfl⟩ := Int.eq_ofNat_of_zero_le hpos
  rcases Nat.lt_or_ge maxBlock k with hlarge | hle
  · rcases request_of_gt h (Int.ofNat_lt.2 hlarge) with hr | hr
    · exact .inl ⟨_, hr⟩
    · exact .inl ⟨_, hr⟩
  have hr := reserve_eq h k
  rw [request_of_le hle]
  split at hr
  · exact .inl ⟨_, hr⟩
  · exact .inr ⟨k, rfl, hle, ‹_›, hr⟩

theorem write_of_le {h : Heap} {i : Nat} {bs : Bytes} (hi : i + bs.length ≤ h.size) :
    write i bs h = .ok () { h with mem := overwrite h.mem i bs } :=
  if_pos hi

/-- Writing into the block that was granted last. -/
theorem write_granted (h : Heap) {n : Nat} {bs : Bytes} (hbs : bs.length ≤ n) :
    write h.size bs (h.granted n []) = .ok () (h.granted n bs) := by
  have hfit : h.size + bs.length ≤ (h.granted n []).size := by
    have := le_padded n
    rw [size_granted]
    omega
  rw [write_of_le hfit]
  have := overwrite_append h.mem (block n []) 0 bs
  simp only [granted, size, Nat.add_zero] at this ⊢
  rw [this]
  rfl

theorem alloc_eq (h : Heap) {n : Nat} (hn : n ≤ maxBlock) :
    alloc n h = if h.overLimit n then .error (.fault (.heapLimit h.limit)) h
      else .ok (addrOf h.size) (h.granted n []) := by
  have hr := reserve_eq h n
  unfold alloc
  rw [request_of_le hn]
  by_cases hl : h.overLimit n
  · rw [if_pos hl] at hr ⊢
    exact bind_of_error hr
  · rw [if_neg hl] at hr ⊢
    exact bind_of_ok hr

/-- An allocation is granted for as many bytes as a host can give, or refused without a
    change. -/
theorem alloc_cases (h : Heap) (n : Int) :
    (∃ e, alloc n h = .error e h) ∨ ∃ k : Nat, n = k ∧ ¬h.overLimit k ∧
      alloc n h = .ok (addrOf h.size) (h.granted k []) := by
  rcases request_cases h n with ⟨e, hr⟩ | ⟨k, hk, -, hover, hr⟩
  · exact .inl ⟨e, bind_of_error hr⟩
  · exact .inr ⟨k, hk, hover, bind_of_ok hr⟩

theorem allocString_eq (h : Heap) (s : Bytes) :
    allocString s h = if h.overLimit (s.length + 1) then
        .error (.fault (.heapLimit h.limit)) h
      else .ok (addrOf h.size) (h.granted (s.length + 1) s) := by
  have hr := reserve_eq h (s.length + 1)
  unfold allocString
  by_cases hl : h.overLimit (s.length + 1)
  · rw [if_pos hl] at hr ⊢
    exact bind_of_error hr
  · rw [if_neg hl] at hr ⊢
    refine (bind_of_ok hr).trans ?_
    rw [bind_of_ok (write_granted h (Nat.le_succ s.length))]
    rfl

/-- Mapping constants takes a block of their size, in spite of any limit. -/
theorem mapReadOnly_eq (h : Heap) (bs : Bytes) :
    mapReadOnly bs h = .ok (addrOf h.size)
      { h with
        mem := h.mem ++ block bs.length bs
        guardLo := h.size
        guardHi := h.size + bs.length } := by
  have hgrow : grow bs.length h = .ok h.size (h.extend bs.length) := rfl
  have hfit : h.size + bs.length ≤ (h.extend bs.length).size := by
    have := le_padded bs.length
    simp only [extend, size, Array.size_append, Array.size_replicate]
    omega
  rw [mapReadOnly, bind_of_ok hgrow, bind_of_ok (write_of_le hfit), extend]
  have := overwrite_append h.mem (Array.replicate (padded bs.length) 0) 0 bs
  simp only [size, Nat.add_zero] at this ⊢
  rw [this]
  rfl

@[simp] theorem length_lowBytes (w n : Nat) : (lowBytes w n).length = w := by
  induction w generalizing n with
  | zero => rfl
  | succ w ih => rw [lowBytes, List.length_cons, ih]

@[simp] theorem length_intBytes (n : Int32) : (intBytes n).length = intSize :=
  length_lowBytes _ _

@[simp] theorem length_ptrBytes (p : Addr) : (ptrBytes p).length = ptrSize :=
  length_lowBytes _ _

@[simp] theorem length_headerBytes (count : Int32) (eltSize : Int) (elems : Addr) :
    (headerBytes count eltSize elems).length = headerSize := by
  simp [headerBytes, headerSize, intSize, ptrSize]

/-- An array of `n` bytes of elements that was granted: the elements, then the header. -/
def grantedArray (h : Heap) (n : Nat) (count : Int32) (eltSize : Int) : Heap :=
  (h.granted n []).granted headerSize (headerBytes count eltSize (addrOf h.size))

/-- The size of the elements of an array, as the heap computes it. -/
def elementsSize (count : Int32) (eltSize : Int) : Int :=
  Int.bmod (count.toInt * eltSize) 0x10000000000000000

/-- The number of bytes of the elements does not wrap around. -/
theorem elementsSize_of_nonneg {count : Int32} {w : Nat} (hcount : 0 ≤ count) (hw : w < 2 ^ 32) :
    elementsSize count w = (count.toInt.toNat * w : Nat) := by
  obtain ⟨j, hj⟩ := Int.eq_ofNat_of_zero_le (Int32.le_iff_toInt_le.1 hcount)
  have hlt := count.toInt_lt
  have hle : j * w ≤ 2 ^ 31 * w := Nat.mul_le_mul_right w (by omega)
  rw [elementsSize, hj, ← Int.natCast_mul, Int.toNat_natCast]
  exact Int.bmod_eq_of_le (by omega) (by omega)

theorem elementsSize_eq {count : Int32} {w m : Nat} (hcount : 0 ≤ count) (hw : w < 2 ^ 32)
    (hm : elementsSize count w = m) : m = count.toInt.toNat * w :=
  Int.ofNat_inj.1 (hm.symm.trans (elementsSize_of_nonneg hcount hw))

/-- An array of a negative length is refused. -/
theorem allocArray_neg (h : Heap) {count : Int32} (hc : count < 0) (eltSize : Int) :
    allocArray count eltSize h = .error (.fault (.negativeCount count)) h := by
  simp only [allocArray, fault_bind, if_pos hc]
  rfl

/-- An array is its elements and, when they are granted, its header. -/
theorem allocArray_of_request (h : Heap) {count : Int32} (hc : ¬count < 0) {eltSize : Int} {n : Nat}
    (hn : request (elementsSize count eltSize) h = .ok h.size (h.granted n [])) :
    allocArray count eltSize h = if (h.granted n []).overLimit headerSize then
        .error (.fault (.heapLimit h.limit)) (h.granted n [])
      else .ok (addrOf (h.granted n []).size) (h.grantedArray n count eltSize) := by
  unfold allocArray
  simp only [if_neg hc]
  refine (bind_of_ok hn).trans ?_
  have hheader := reserve_eq (h.granted n []) headerSize
  by_cases hl : (h.granted n []).overLimit headerSize
  · rw [if_pos hl] at hheader ⊢
    exact bind_of_error hheader
  · rw [if_neg hl] at hheader ⊢
    have hfit : (headerBytes count eltSize (addrOf h.size)).length ≤ headerSize :=
      Nat.le_of_eq (length_headerBytes count eltSize _)
    refine (bind_of_ok hheader).trans ?_
    exact bind_of_ok (write_granted (h.granted n []) hfit)

/-- An array whose elements are not granted is refused as they are. -/
theorem allocArray_of_refused (h : Heap) {count : Int32} (hc : ¬count < 0) {eltSize : Int}
    {e : Failure} (he : request (elementsSize count eltSize) h = .error e h) :
    allocArray count eltSize h = .error e h := by
  unfold allocArray
  simp only [if_neg hc]
  exact bind_of_error he

/-- A host can make the elements of any array, if they are not too wide. -/
theorem elements_le_maxBlock (count : Int32) {w : Nat} (hw : w ≤ 255) :
    count.toInt.toNat * w ≤ maxBlock := by
  have hlt := count.toInt_lt
  calc
    count.toInt.toNat * w ≤ 2 ^ 31 * 255 := Nat.mul_le_mul (by omega) hw
    _ ≤ maxBlock := by decide

/-- An array of such elements is up to the limit, which may also refuse the header when the
    elements have been granted. -/
theorem allocArray_of_width (h : Heap) {count : Int32} {w : Nat} (hcount : 0 ≤ count)
    (hw : w ≤ 255) :
    allocArray count w h =
      if h.overLimit (count.toInt.toNat * w) then .error (.fault (.heapLimit h.limit)) h
      else if (h.granted (count.toInt.toNat * w) []).overLimit headerSize then
        .error (.fault (.heapLimit h.limit)) (h.granted (count.toInt.toNat * w) [])
      else .ok (addrOf (h.granted (count.toInt.toNat * w) []).size)
        (h.grantedArray (count.toInt.toNat * w) count w) := by
  have hc := Int32.not_lt.2 hcount
  have helems : request (elementsSize count w) h =
      if h.overLimit (count.toInt.toNat * w) then .error (.fault (.heapLimit h.limit)) h
      else .ok h.size (h.granted (count.toInt.toNat * w) []) := by
    rw [elementsSize_of_nonneg hcount (by omega), request_of_le (elements_le_maxBlock count hw)]
    exact reserve_eq h _
  by_cases hl : h.overLimit (count.toInt.toNat * w)
  · rw [if_pos hl] at helems ⊢
    exact allocArray_of_refused h hc helems
  · rw [if_neg hl] at helems ⊢
    exact allocArray_of_request h hc helems

/-- The three ways in which an allocation of an array can end: nothing has happened, or the
    limit refuses its header, or it is there. -/
theorem allocArray_cases (h : Heap) (count : Int32) (eltSize : Int) :
    (∃ e, allocArray count eltSize h = .error e h) ∨
      ∃ n : Nat, elementsSize count eltSize = n ∧ 0 ≤ count ∧
        (allocArray count eltSize h =
            .error (.fault (.heapLimit h.limit)) (h.granted n []) ∨
          allocArray count eltSize h =
            .ok (addrOf (h.granted n []).size) (h.grantedArray n count eltSize)) := by
  by_cases hc : count < 0
  · exact .inl ⟨_, allocArray_neg h hc eltSize⟩
  rcases request_cases h (elementsSize count eltSize) with ⟨e, he⟩ | ⟨n, hn, -, -, hgrant⟩
  · exact .inl ⟨e, allocArray_of_refused h hc he⟩
  · have halloc := allocArray_of_request h hc hgrant
    refine .inr ⟨n, hn, Int32.not_lt.1 hc, ?_⟩
    split at halloc
    · exact .inl halloc
    · exact .inr halloc

/-- What there is when an array was allocated. -/
theorem allocArray_eq_ok {h k : Heap} {count : Int32} {eltSize : Int} {a : Addr}
    (halloc : allocArray count eltSize h = .ok a k) :
    ∃ n : Nat, elementsSize count eltSize = n ∧ 0 ≤ count ∧ a = addrOf (h.granted n []).size ∧
      k = h.grantedArray n count eltSize := by
  rcases allocArray_cases h count eltSize with ⟨c, hc⟩ | ⟨n, hn, hcount, hc | hc⟩ <;>
    cases halloc.symm.trans hc
  exact ⟨n, hn, hcount, rfl, rfl⟩

/-! ## Accesses -/

variable {h : Heap} {p : Addr} {n : Nat}

theorem check_eq_ok_iff : h.check p n = .ok () ↔ wordSize ≤ p.toNat ∧ p.toNat + n ≤ h.size := by
  unfold check
  by_cases hp : p = Addr.null
  · have hzero : p.toNat = 0 := by
      rw [hp]
      rfl
    rw [if_pos hp, hzero]
    simp [wordSize]
  · rw [if_neg hp]
    split
    · simp only [reduceCtorEq, false_iff]
      omega
    · simp only [true_iff]
      omega

/-- What lies behind the reserved word is not at the null pointer. -/
theorem ne_null_of_le (hp : wordSize ≤ p.toNat) : p ≠ Addr.null := by
  rintro rfl
  exact absurd hp (by decide)

theorem check_errs : ErrsWithin Failure.IsMemoryFault (h.check p n) := by
  unfold check
  exact .ite (fun _ => .error ⟨trivial, _, rfl, rfl⟩) fun _ =>
    .ite (fun _ => .error ⟨trivial, _, rfl, rfl⟩) fun _ => .ok ()

theorem slice_of_le {i : Nat} (hi : i + n ≤ h.size) :
    h.slice i n = .ok (h.mem.extract i (i + n)).toList :=
  if_pos hi

theorem load_errs : ErrsWithin Failure.IsMemoryFault (h.load p n) := by
  refine check_errs.bind fun _ hp => ?_
  rw [slice_of_le (check_eq_ok_iff.1 hp).2]
  exact .ok _

/-- Bytes that were loaded are as many as were asked for. -/
theorem length_of_load {bs : Bytes} (hl : h.load p n = .ok bs) : bs.length = n := by
  unfold load at hl
  cases hp : h.check p n with
  | error e =>
    rw [hp] at hl
    cases hl
  | ok u =>
    have hin := (check_eq_ok_iff.1 hp).2
    rw [hp] at hl
    change h.slice p.toNat n = _ at hl
    rw [slice_of_le hin] at hl
    cases hl
    simp only [Array.length_toList, Array.size_extract]
    unfold size at hin
    omega

theorem loadInt_errs : ErrsWithin Failure.IsMemoryFault (h.loadInt p) :=
  load_errs.bind fun _ _ => .ok _

theorem loadPtr_errs : ErrsWithin Failure.IsMemoryFault (h.loadPtr p) :=
  load_errs.bind fun _ _ => .ok _

theorem loadByte_errs : ErrsWithin Failure.IsMemoryFault (h.loadByte p) := by
  refine load_errs.bind fun bs hbs => ?_
  cases bs with
  | nil => exact absurd (length_of_load hbs) (by decide)
  | cons b bs => exact .ok b

theorem loadChar_errs : ErrsWithin Failure.IsMemoryFault (h.loadChar p) :=
  loadByte_errs.bind fun _ _ => .ok _

theorem checkWritable_eq_ok_iff : h.checkWritable p n = .ok () ↔
    h.check p n = .ok () ∧ (h.guardHi ≤ p.toNat ∨ p.toNat + n ≤ h.guardLo) := by
  unfold checkWritable
  cases hp : h.check p n with
  | error e => simp [bind, Except.bind]
  | ok u =>
    simp only [bind, Except.bind]
    split
    · simp only [reduceCtorEq, true_and, false_iff]
      omega
    · simp only [pure, Except.pure, true_and, true_iff]
      omega

theorem checkWritable_errs : ErrsWithin Failure.IsMemoryFault (h.checkWritable p n) :=
  check_errs.bind fun _ _ => .ite (fun _ => .error ⟨trivial, _, rfl, rfl⟩) fun _ => .ok ()

/-- A store that succeeds replaces bytes of the program's memory, none of them
    protected. -/
theorem store_eq_ok {bs : Bytes} {k : Heap} (hs : store p bs h = .ok () k) :
    wordSize ≤ p.toNat ∧ p.toNat + bs.length ≤ h.size ∧
      (h.guardHi ≤ p.toNat ∨ p.toNat + bs.length ≤ h.guardLo) ∧
      k = { h with mem := overwrite h.mem p.toNat bs } := by
  unfold store at hs
  split at hs
  · cases hs
  · rename_i hp
    obtain ⟨hin, hfree⟩ := checkWritable_eq_ok_iff.1 hp
    obtain ⟨hlo, hhi⟩ := check_eq_ok_iff.1 hin
    rw [write_of_le hhi] at hs
    cases hs
    exact ⟨hlo, hhi, hfree, rfl⟩

/-- A store that fails changes nothing, and fails by a fault of memory. -/
theorem store_eq_error {bs : Bytes} {e : Failure} {k : Heap} (hs : store p bs h = .error e k) :
    k = h ∧ e.IsMemoryFault := by
  unfold store at hs
  split at hs
  · rename_i e' hp
    cases hs
    exact ⟨rfl, checkWritable_errs e hp⟩
  · rename_i hp
    obtain ⟨hin, -⟩ := checkWritable_eq_ok_iff.1 hp
    rw [write_of_le (check_eq_ok_iff.1 hin).2] at hs
    cases hs

/-! ## Arrays -/

theorem arrayLength_errs : ErrsWithin Failure.IsMemoryFault (h.arrayLength p) :=
  .ite (fun _ => .error ⟨trivial, _, rfl, rfl⟩) fun _ => loadInt_errs

theorem arrayElement_errs {i : Int32} : ErrsWithin Failure.IsMemoryFault (h.arrayElement p i) := by
  unfold arrayElement
  refine .ite (fun _ => .error ⟨trivial, _, rfl, rfl⟩) fun _ => load_errs.bind fun header _ => ?_
  exact .ite (fun _ => .error ⟨trivial, _, rfl, rfl⟩) fun _ => .ok _

theorem elementByte_errs {i : Int32} : ErrsWithin Failure.IsMemoryFault (h.elementByte p i) :=
  arrayElement_errs.bind fun _ _ => loadByte_errs

theorem readCharsFrom_errs {acc : Bytes} {i : Int32} :
    ErrsWithin Failure.IsMemoryFault (h.readCharsFrom p acc i n) := by
  induction n generalizing acc i with
  | zero => exact .ok _
  | succ n ih => exact elementByte_errs.bind fun b _ => ih

theorem readChars_of_neg {n : Int32} (hn : n < 0) (name : String) :
    h.readChars name p n = .error (.fault (.contract name (.negativeLength n))) :=
  if_pos hn

/-- Characters are read one after the other when the last one has been tried. -/
theorem readChars_of_nonneg {n : Int32} (hn : 0 ≤ n) (name : String) :
    h.readChars name p n =
      if 0 < n then h.elementByte p (n - 1) >>= fun _ => h.readCharsFrom p [] 0 n.toInt.toNat
      else h.readCharsFrom p [] 0 n.toInt.toNat := by
  obtain ⟨k, hk⟩ := Int.eq_ofNat_of_zero_le (Int32.le_iff_toInt_le.1 hn)
  simp only [readChars, hk, if_neg (Int32.not_lt.2 hn)]
  rfl

theorem readChars_errs_of_nonneg {n : Int32} (hn : 0 ≤ n) (name : String) :
    ErrsWithin Failure.IsMemoryFault (h.readChars name p n) := by
  rw [readChars_of_nonneg hn]
  exact .ite (fun _ => elementByte_errs.bind fun _ _ => readCharsFrom_errs) fun _ =>
    readCharsFrom_errs

theorem readChars_errs {name : String} {n : Int32} :
    ErrsWithin Failure.IsFault (h.readChars name p n) := by
  by_cases hn : n < 0
  · rw [readChars_of_neg hn]
    exact .error trivial
  · exact (readChars_errs_of_nonneg (Int32.not_lt.1 hn) name).isFault

/-! ## Strings -/

/-- The scan for a NUL finds the end of the bytes before the first one. -/
theorem nulWithin?_eq {mem : Array UInt8} {n i : Nat} (hi : i + n = mem.size) :
    nulWithin? mem n i = if 0 ∈ mem.toList.drop i then
      some (i + (Bytes.before 0 (mem.toList.drop i)).length) else none := by
  induction n generalizing i with
  | zero =>
    have htail : mem.toList.drop i = [] := List.drop_eq_nil_of_le (by simp; omega)
    simp [nulWithin?, htail]
  | succ n ih =>
    have hlt : i < mem.size := by omega
    have htail : mem.toList.drop i = mem[i] :: mem.toList.drop (i + 1) :=
      List.drop_eq_getElem_cons (by simpa using hlt)
    rw [nulWithin?, ih (by omega), htail, Array.getElem?_eq_getElem hlt]
    by_cases hz : mem[i] = 0
    · simp [hz, Bytes.before]
    · have hbefore : Bytes.before 0 (mem[i] :: mem.toList.drop (i + 1)) =
          mem[i] :: Bytes.before 0 (mem.toList.drop (i + 1)) :=
        List.takeWhile_cons_of_pos (by simpa using hz)
      simp only [hbefore, Option.some_inj, if_neg hz, List.length_cons, List.mem_cons,
        or_iff_right (Ne.symm hz)]
      congr 2
      omega

/-- Bytes before the first NUL are a front part. -/
theorem take_length_before (bs : Bytes) : bs.take (Bytes.before 0 bs).length = Bytes.before 0 bs :=
  (List.prefix_iff_eq_take.1 (List.takeWhile_prefix _)).symm

theorem length_before_le (bs : Bytes) : (Bytes.before 0 bs).length ≤ bs.length :=
  (List.takeWhile_prefix _).length_le

/-- The string at an address of the arena: the bytes before the first NUL from there on. -/
theorem loadString_eq (hlo : wordSize ≤ p.toNat) (hhi : p.toNat ≤ h.size) :
    h.loadString p = if 0 ∈ h.mem.toList.drop p.toNat then
      .ok (Bytes.before 0 (h.mem.toList.drop p.toNat)) else .error (.fault (.unterminated p)) := by
  have hcheck : h.check p 0 = .ok () := check_eq_ok_iff.2 ⟨hlo, hhi⟩
  have hscan : nulWithin? h.mem (h.size - p.toNat) p.toNat = _ :=
    nulWithin?_eq (Nat.add_sub_of_le hhi)
  by_cases hz : 0 ∈ h.mem.toList.drop p.toNat
  · rw [if_pos hz] at hscan ⊢
    have hle : (Bytes.before 0 (h.mem.toList.drop p.toNat)).length ≤ h.size - p.toNat := by
      simpa [size] using length_before_le (h.mem.toList.drop p.toNat)
    simp only [loadString, hcheck, hscan, bind, Except.bind]
    rw [Nat.add_sub_cancel_left, slice_of_le (by omega), Array.toList_extract,
      List.extract_eq_take_drop, Nat.add_sub_cancel_left, take_length_before]
  · rw [if_neg hz] at hscan ⊢
    simp only [loadString, hcheck, hscan, bind, Except.bind]

/-- What it takes to read a string: a NUL from its address on. -/
theorem loadString_eq_ok_iff {s : Bytes} : h.loadString p = .ok s ↔
    wordSize ≤ p.toNat ∧ p.toNat ≤ h.size ∧ 0 ∈ h.mem.toList.drop p.toNat ∧
      s = Bytes.before 0 (h.mem.toList.drop p.toNat) := by
  constructor
  · intro hs
    cases hp : h.check p 0 with
    | error e =>
      rw [loadString, hp] at hs
      cases hs
    | ok u =>
      obtain ⟨hlo, hhi⟩ := check_eq_ok_iff.1 hp
      rw [loadString_eq hlo hhi] at hs
      split at hs <;> cases hs
      exact ⟨hlo, hhi, ‹_›, rfl⟩
  · rintro ⟨hlo, hhi, hnul, rfl⟩
    rw [loadString_eq hlo hhi, if_pos hnul]

theorem loadString_errs : ErrsWithin Failure.IsMemoryFault (h.loadString p) := by
  cases hp : h.check p 0 with
  | error e =>
    unfold loadString
    rw [hp]
    exact .error (check_errs e hp)
  | ok u =>
    obtain ⟨hlo, hhi⟩ := check_eq_ok_iff.1 hp
    rw [loadString_eq hlo hhi]
    exact .ite (fun _ => .ok _) fun _ => .error ⟨trivial, _, rfl, rfl⟩

end CZero.Heap
