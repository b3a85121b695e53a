import CZero.Proofs.Heap.Fresh
import Mathlib.Algebra.GroupWithZero.Nat

/-!
# Blocks lie apart

The blocks that a program is granted are cut off the end of the arena, one behind the
other (`Grants`). So each is an aligned part of the arena, behind the reserved word and
the constants, and no two of them share a word; that is so for blocks of no bytes too,
which take a word all the same. `LiesApart` says it of a heap and the blocks granted so
far, together with what the heap has counted for them, and every operation preserves it,
whether it succeeds or fails: an allocation adds its blocks behind all others
(`LiesApart.grants`), and a store or a new limit leaves the layout as it is
(`LiesApart.of_sameLayout`).

An array is two blocks, and it may be refused when the first of them was granted. Then
that block is there and counted, though nobody has its address.
-/

namespace CZero.Heap

open CZero.Action

/-! ## Blocks -/

/-- A block that was granted. -/
structure Block where
  /-- The index of its first byte. -/
  start : Nat
  /-- How many bytes were asked for. -/
  size : Nat
  /-- What is written at its front when it is granted. -/
  contents : Bytes
deriving DecidableEq, Repr

/-- The index behind the last word of a block. -/
def Block.stop (b : Block) : Nat :=
  b.start + padded b.size

/-- The blocks that an operation on `h` is granted. They start at the addresses that it
    gives back. The elements of an array come first, where the arena ended; if the
    header is refused then, the arena has grown by their block alone. -/
def Op.blocks (h : Heap) : Op → List Block
  | .alloc n => match Heap.alloc n h with
    | .ok p _ => [⟨p.toNat, n.toNat, []⟩]
    | .error .. => []
  | .allocString s => match Heap.allocString s h with
    | .ok p _ => [⟨p.toNat, s.length + 1, s⟩]
    | .error .. => []
  | .allocArray count eltSize =>
    let elements : Block := ⟨h.size, (elementsSize count eltSize).toNat, []⟩
    match Heap.allocArray count eltSize h with
    | .ok p _ => [elements, ⟨p.toNat, headerSize, headerBytes count eltSize (addrOf h.size)⟩]
    | .error _ k => if k.size = h.size then [] else [elements]
  | .setLimit _ | .storeInt .. | .storePtr .. | .storeChar .. => []

/-- Whether an operation asks for memory. -/
def Op.allocates : Op → Bool
  | .alloc _ | .allocArray .. | .allocString _ => true
  | .setLimit _ | .storeInt .. | .storePtr .. | .storeChar .. => false

/-- An action on the heap does not crash. -/
def ComesBack {α : Type} (x : Action Heap α) (h : Heap) : Prop :=
  ∀ k, x h ≠ .error .crash k

/-- The operation comes back, by a result or by a fault. If it crashes, there is no heap to
    go on with. -/
def Op.Returns (h : Heap) : Op → Prop
  | .setLimit _ => True
  | .alloc n => ComesBack (Heap.alloc n) h
  | .allocArray count eltSize => ComesBack (Heap.allocArray count eltSize) h
  | .allocString s => ComesBack (Heap.allocString s) h
  | .storeInt p n => ComesBack (Heap.storeInt p n) h
  | .storePtr p q => ComesBack (Heap.storePtr p q) h
  | .storeChar p b => ComesBack (Heap.storeChar p b) h

/-- How many bytes an operation asks for at once, as far as that is a computed number. -/
def Op.requested : Op → Int
  | .alloc n => n
  | .allocArray count eltSize => elementsSize count eltSize
  | .setLimit _ | .allocString _ | .storeInt .. | .storePtr .. | .storeChar .. => 0

/-- A heap in which nothing has been allocated, with constants mapped or without. -/
def initial : Option Bytes → Heap
  | none => empty
  | some constants => final (mapReadOnly constants) empty

/-- Operations lead to the heap from an initial one, each of which came back, and were granted
    the blocks. -/
inductive ReachedWith (constants : Option Bytes) : Heap → List Block → Prop
  | initial : ReachedWith constants (initial constants) []
  | op {h : Heap} {bs : List Block} (o : Op) : o.Returns h →
    ReachedWith constants h bs → ReachedWith constants (o.apply h) (bs ++ o.blocks h)

/-! ## What comes back -/

theorem comesBack_of_within {α : Type} {G : Heap → Heap → Prop} {x : Action Heap α}
    (hx : Within G Failure.IsFault x) (h : Heap) : ComesBack x h :=
  fun _ hk => (hx.error hk).2.elim

theorem request_comesBack {n : Int} (hn : n ≤ maxBlock) (h : Heap) : ComesBack (request n) h := by
  intro k hk
  rcases Int.lt_or_le n 0 with hneg | hpos
  · rw [request_neg h hneg] at hk
    cases hk
  · obtain ⟨j, rfl⟩ := Int.eq_ofNat_of_zero_le hpos
    rw [request_of_le (Int.ofNat_le.1 hn), reserve_eq] at hk
    split at hk <;> cases hk

/-- Only a request for more than any host can give does not come back. -/
theorem Op.returns_of_le {o : Op} (ho : o.requested ≤ maxBlock) (h : Heap) : o.Returns h := by
  cases o with
  | setLimit n => trivial
  | alloc n =>
    intro k hk
    rcases bind_eq_error.1 hk with hk | ⟨_, _, _, ⟨⟩⟩
    exact request_comesBack ho h k hk
  | allocArray count eltSize =>
    intro k hk
    by_cases hc : count < 0
    · rw [allocArray_neg h hc] at hk
      cases hk
    rcases request_cases h (elementsSize count eltSize) with ⟨e, he⟩ | ⟨n, -, -, -, hn⟩
    · rw [allocArray_of_refused h hc he] at hk
      cases hk
      exact request_comesBack ho h h he
    · rw [allocArray_of_request h hc hn] at hk
      split at hk <;> cases hk
  | allocString s => exact comesBack_of_within (allocString_within s) h
  | storeInt p n => exact comesBack_of_within (storeInt_within p n) h
  | storePtr p q => exact comesBack_of_within (storePtr_within p q) h
  | storeChar p b => exact comesBack_of_within (storeChar_within p b) h

/-! ## What an operation does -/

/-- `k` is `h` with the blocks cut off its end, one after the other. -/
inductive Grants : Heap → List Block → Heap → Prop
  | none (h : Heap) : Grants h [] h
  | block {h k : Heap} {bs : List Block} {n : Nat} {cs : Bytes} :
    cs.length ≤ n → Grants (h.granted n cs) bs k → Grants h (⟨h.size, n, cs⟩ :: bs) k

variable {h k : Heap} {bs : List Block}

theorem Change.size_le (hk : Change h k) : h.size ≤ k.size := by
  cases hk with
  | same | limit n => exact Nat.le_refl _
  | grant n cs => exact (extends_granted h n cs).size
  | grantArray n count eltSize =>
    exact Nat.le_trans (extends_granted h n []).size (extends_granted _ headerSize _).size
  | write i cs => exact Nat.le_of_eq (size_overwrite h.mem i cs).symm

theorem Op.size_le (o : Op) (h : Heap) : h.size ≤ (o.apply h).size :=
  (o.change h).size_le

theorem Evolves.size_le (hk : Evolves h k) : h.size ≤ k.size :=
  hk.preserves (P := fun l => h.size ≤ l.size) (fun _ _ hl hle => Nat.le_trans hle hl.size_le)
    (Nat.le_refl _)

theorem alloc_grants {n : Int} (hsize : h.size < 2 ^ 63) :
    Grants h (Op.blocks h (.alloc n)) (final (alloc n) h) := by
  have hstart : (addrOf h.size).toNat = h.size := toNat_addrOf (by omega)
  rw [Op.blocks, final]
  rcases alloc_cases h n with ⟨e, he⟩ | ⟨k, rfl, -, hk⟩
  · rw [he]
    exact .none h
  · simp only [hk, hstart]
    exact .block (Nat.zero_le _) (.none _)

theorem allocString_grants {s : Bytes} (hsize : h.size < 2 ^ 63) :
    Grants h (Op.blocks h (.allocString s)) (final (allocString s) h) := by
  have hstart : (addrOf h.size).toNat = h.size := toNat_addrOf (by omega)
  rw [Op.blocks, final, allocString_eq]
  by_cases hover : h.overLimit (s.length + 1)
  · rw [if_pos hover]
    exact .none h
  · simp only [if_neg hover, hstart]
    exact .block (Nat.le_succ _) (.none _)

theorem wordSize_le_padded (n : Nat) : wordSize ≤ padded n :=
  Nat.le_max_left _ _

/-- An array takes one block behind the other, or only the first, or none. -/
theorem allocArray_grants {count : Int32} {eltSize : Int}
    (hsize : (final (allocArray count eltSize) h).size < 2 ^ 63) :
    Grants h (Op.blocks h (.allocArray count eltSize)) (final (allocArray count eltSize) h) := by
  rw [final] at hsize ⊢
  rw [Op.blocks]
  rcases allocArray_cases h count eltSize with ⟨c, hc⟩ | ⟨n, hn, -, hc | hc⟩
  · simp only [hc, if_true]
    exact .none h
  · have hgrown : (h.granted n []).size ≠ h.size := by
      have := wordSize_le_padded n
      rw [size_granted, wordSize] at *
      omega
    simp only [hc, hn, if_neg hgrown]
    exact .block (Nat.zero_le _) (.none _)
  · have hheader : (addrOf (h.granted n []).size).toNat = (h.granted n []).size := by
      refine toNat_addrOf ?_
      simp only [hc, grantedArray, size_granted] at hsize ⊢
      omega
    simp only [hc, hn, hheader]
    have hfits : (headerBytes count eltSize (addrOf h.size)).length ≤ headerSize :=
      Nat.le_of_eq (length_headerBytes count eltSize _)
    exact .block (Nat.zero_le _) (.block hfits (.none _))

/-- An operation that asks for memory adds blocks and does nothing else. -/
theorem Op.grants {o : Op} (ho : o.allocates) (hsize : (o.apply h).size < 2 ^ 63) :
    Grants h (o.blocks h) (o.apply h) := by
  have hle : h.size < 2 ^ 63 := Nat.lt_of_le_of_lt (o.size_le h) hsize
  cases o with
  | alloc n => exact alloc_grants hle
  | allocString s => exact allocString_grants hle
  | allocArray count eltSize => exact allocArray_grants hsize
  | setLimit | storeInt | storePtr | storeChar => cases ho

/-- `k` has the size of `h`, its count of bytes and its reserved word. -/
structure SameLayout (h k : Heap) : Prop where
  size : k.size = h.size
  used : k.used = h.used
  reserved : ∀ i < wordSize, k.mem[i]? = h.mem[i]?

theorem store_sameLayout (p : Addr) (cs : Bytes) (h : Heap) :
    SameLayout h (final (store p cs) h) := by
  rw [final]
  cases hs : store p cs h with
  | error e k =>
    obtain ⟨rfl, -⟩ := store_eq_error hs
    exact ⟨rfl, rfl, fun _ _ => rfl⟩
  | ok u k =>
    obtain ⟨hlo, -, -, rfl⟩ := store_eq_ok hs
    refine ⟨size_overwrite _ _ _, rfl, fun i hi => ?_⟩
    exact getElem?_overwrite_of_outside (.inl (Nat.lt_of_lt_of_le hi hlo))

/-- An operation that asks for no memory leaves the layout as it is. -/
theorem Op.sameLayout {o : Op} (ho : ¬o.allocates) (h : Heap) :
    o.blocks h = [] ∧ SameLayout h (o.apply h) := by
  cases o with
  | setLimit n => exact ⟨rfl, rfl, rfl, fun _ _ => rfl⟩
  | storeInt p n => exact ⟨rfl, store_sameLayout p (intBytes n) h⟩
  | storePtr p q => exact ⟨rfl, store_sameLayout p (ptrBytes q) h⟩
  | storeChar p b => exact ⟨rfl, store_sameLayout p [b] h⟩
  | alloc | allocString | allocArray => exact absurd rfl ho

/-! ## Blocks when they are granted -/

theorem Grants.extends (hk : Grants h bs k) : h.Extends k := by
  induction hk with
  | none h => exact refl h
  | block _ _ ih => exact IsTrans.trans _ _ _ (extends_granted _ _ _) ih

/-- The bytes of a new block: its contents, and zeros up to the end of its last word. -/
def Block.initialBytes (b : Block) : Bytes :=
  b.contents ++ List.replicate (padded b.size - b.contents.length) 0

theorem holdsAt_initialBytes (h : Heap) {n : Nat} {cs : Bytes} (hcs : cs.length ≤ n) :
    (h.granted n cs).HoldsAt h.size (Block.mk h.size n cs).initialBytes := by
  intro j _
  have hmem : (h.granted n cs).mem[h.size + j]? = (block n cs)[j]? := by
    rw [granted, size, Array.getElem?_append_right (Nat.le_add_right _ _), Nat.add_sub_cancel_left]
  rw [hmem, block_eq hcs, ← Array.getElem?_toList, Array.toList_append, Array.toList_replicate]
  rfl

theorem Grants.holdsAt (hk : Grants h bs k) : ∀ b ∈ bs, k.HoldsAt b.start b.initialBytes := by
  induction hk with
  | none h => exact fun b hb => nomatch hb
  | @block h k bs n cs hcs hk ih =>
    intro b hb
    rcases List.mem_cons.1 hb with rfl | hb
    · -- The blocks behind it are cut off elsewhere.
      intro j hj
      have hbyte := holdsAt_initialBytes h hcs j hj
      obtain ⟨hin, -⟩ := Array.getElem?_eq_some_iff.1
        (hbyte.trans (List.getElem?_eq_getElem hj))
      exact (hk.extends.bytes _ hin).trans hbyte
    · exact ih b hb

/-! ## All blocks so far -/

/-- The blocks are aligned parts of the arena, from the index `base` on, and each comes
    behind those granted before it. The arena is made of whole words, of which the first
    is zero, and the bytes of the blocks are counted. -/
structure LiesApart (base : Nat) (h : Heap) (bs : List Block) : Prop where
  aligned : wordSize ∣ h.size
  room : base ≤ h.size
  reserved : ∀ i < wordSize, h.mem[i]? = some 0
  used : h.used = (bs.map Block.size).sum
  inside : ∀ b ∈ bs, wordSize ∣ b.start ∧ base ≤ b.start ∧ b.stop ≤ h.size
  apart : bs.Pairwise fun b c => b.stop ≤ c.start

variable {base : Nat} {new : List Block}

theorem LiesApart.of_sameLayout (hh : LiesApart base h bs) (hk : SameLayout h k) :
    LiesApart base k bs where
  aligned := hk.size ▸ hh.aligned
  room := hk.size ▸ hh.room
  reserved i hi := (hk.reserved i hi).trans (hh.reserved i hi)
  used := hk.used.trans hh.used
  inside b hb := hk.size ▸ hh.inside b hb
  apart := hh.apart

theorem LiesApart.granted (hh : LiesApart base h bs) (n : Nat) (cs : Bytes) :
    LiesApart base (h.granted n cs) (bs ++ [⟨h.size, n, cs⟩]) where
  aligned := by
    rw [size_granted]
    exact Nat.dvd_add hh.aligned (wordSize_dvd_padded n)
  room := Nat.le_trans hh.room (extends_granted h n cs).size
  reserved i hi := by
    obtain ⟨hin, -⟩ := Array.getElem?_eq_some_iff.1 (hh.reserved i hi)
    exact ((extends_granted h n cs).bytes i hin).trans (hh.reserved i hi)
  used := by
    rw [List.map_append, List.sum_append, ← hh.used]
    rfl
  inside b hb := by
    rw [size_granted]
    rcases List.mem_append.1 hb with hb | hb
    · obtain ⟨haligned, hbase, hstop⟩ := hh.inside b hb
      exact ⟨haligned, hbase, Nat.le_add_right_of_le hstop⟩
    · obtain rfl := List.mem_singleton.1 hb
      exact ⟨hh.aligned, hh.room, Nat.le_refl _⟩
  apart := by
    refine List.pairwise_append.2 ⟨hh.apart, List.pairwise_singleton _ _, fun b hb c hc => ?_⟩
    obtain rfl := List.mem_singleton.1 hc
    exact (hh.inside b hb).2.2

theorem LiesApart.grants (hk : Grants h new k) (hh : LiesApart base h bs) :
    LiesApart base k (bs ++ new) := by
  induction hk generalizing bs with
  | none h =>
    rw [List.append_nil]
    exact hh
  | @block h k new n cs _ _ ih =>
    rw [List.append_cons]
    exact ih (hh.granted n cs)

/-- Without constants, the first block comes behind the reserved word. -/
theorem liesApart_initial (constants : Option Bytes) :
    LiesApart (wordSize + (constants.getD []).length) (initial constants) [] := by
  cases constants with
  | none =>
    refine ⟨⟨1, rfl⟩, Nat.le_refl _, fun i hi => ?_, rfl, List.forall_mem_nil _, .nil⟩
    exact Array.getElem?_replicate.trans (if_pos hi)
  | some cs =>
    have hmem : (initial (some cs)).mem = Array.replicate wordSize 0 ++ block cs.length cs := by
      rw [initial, final, mapReadOnly_eq]
      rfl
    have hsize : (initial (some cs)).size = wordSize + padded cs.length := by
      rw [size, hmem, Array.size_append, Array.size_replicate, size_block]
    refine ⟨?_, ?_, fun i hi => ?_, ?_, List.forall_mem_nil _, .nil⟩
    · rw [hsize]
      exact Nat.dvd_add (Nat.dvd_refl _) (wordSize_dvd_padded _)
    · rw [hsize]
      exact Nat.add_le_add_left (le_padded _) _
    · rw [hmem, Array.getElem?_append_left (by simpa using hi)]
      exact Array.getElem?_replicate.trans (if_pos hi)
    · rw [initial, final, mapReadOnly_eq]
      rfl

theorem liesApart_of_reachedWith {constants : Option Bytes} (hh : ReachedWith constants h bs)
    (hsize : h.size < 2 ^ 63) : LiesApart (wordSize + (constants.getD []).length) h bs := by
  induction hh with
  | initial => exact liesApart_initial constants
  | @op h bs o _ _ ih =>
    have hapart := ih (Nat.lt_of_le_of_lt (o.size_le h) hsize)
    by_cases ho : o.allocates
    · exact hapart.grants (o.grants ho hsize)
    · obtain ⟨hnone, hsame⟩ := o.sameLayout ho h
      rw [hnone, List.append_nil]
      exact hapart.of_sameLayout hsame

/-- Every block takes at least a word, so blocks that lie apart start at different
    addresses. -/
theorem LiesApart.nodup_starts (hh : LiesApart base h bs) : (bs.map Block.start).Nodup := by
  rw [List.nodup_iff_pairwise_ne, List.pairwise_map]
  refine hh.apart.imp fun {b c} hbc heq => ?_
  have hword := wordSize_le_padded b.size
  rw [Block.stop, ← heq] at hbc
  rw [wordSize] at hword
  omega

/-- Blocks are never shared. Any operations, of which some may fail, have led to a heap
    from one without blocks, with or without constants; its size is a 64-bit number. All of
    them came back, as they do unless they ask for more than any host can give
    (`Op.returns_of_le`). Then the blocks that were granted lie apart from each other, from
    the reserved word and from the constants, and no two of them start at the same address.
    Whatever the next operation is, the blocks that it is granted hold their contents and are
    zero behind them, and if it asks for memory, it changes no byte that was there. -/
theorem blocks_apart {constants : Option Bytes} (hh : ReachedWith constants h bs)
    (hsize : h.size < 2 ^ 63) :
    LiesApart (wordSize + (constants.getD []).length) h bs ∧ (bs.map Block.start).Nodup ∧
      ∀ o : Op, (o.apply h).size < 2 ^ 63 →
        (∀ b ∈ o.blocks h, (o.apply h).HoldsAt b.start b.initialBytes) ∧
        (o.allocates → ∀ i < h.size, (o.apply h).mem[i]? = h.mem[i]?) := by
  have hapart := liesApart_of_reachedWith hh hsize
  refine ⟨hapart, hapart.nodup_starts, fun o hnext => ⟨fun b hb => ?_, fun ho => ?_⟩⟩
  · by_cases ho : o.allocates
    · exact (o.grants ho hnext).holdsAt b hb
    · rw [(o.sameLayout ho h).1] at hb
      cases hb
  · exact (o.grants ho hnext).extends.bytes

/-- With a limit of 30 bytes, a block of none, a string and an array are granted, and of
    an array without elements all but the header. -/
theorem blocks_apart_refusedHeader :
    ∃ h bs, ReachedWith (some [0x61, 0]) h bs ∧ bs.map Block.start = [16, 24, 32, 48, 64] ∧
      bs.map Block.size = [0, 2, 12, 16, 0] ∧ h.used = 30 ∧ LiesApart (wordSize + 2) h bs := by
  have hinitial : ReachedWith (some [0x61, 0]) (initial (some [0x61, 0])) [] := .initial
  have hreached := hinitial
    |>.op (.setLimit 30) (Op.returns_of_le (by decide) _)
    |>.op (.alloc 0) (Op.returns_of_le (by decide) _)
    |>.op (.allocString [0x62]) (Op.returns_of_le (by decide) _)
    |>.op (.allocArray 3 4) (Op.returns_of_le (by decide) _)
    |>.op (.allocArray 0 4) (Op.returns_of_le (by decide) _)
  exact ⟨_, _, hreached, by decide +kernel, by decide +kernel, by decide +kernel,
    (blocks_apart hreached (by decide +kernel)).1⟩

end CZero.Heap
