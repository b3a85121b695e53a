import CZero.Proofs.Heap.Contents
import CZero.Proofs.StringPool
import Mathlib.Algebra.BigOperators.Ring.Finset

/-!
# Cells in memory

A load or store of a cell of `w` bytes is granted exactly if these bytes lie in the arena
behind the reserved word and, for a store, none of them is a string constant; else it is a
memory fault, and nothing has changed. That holds for every 64-bit address, also for one
near the end of the address space, where `p + w` is no address any more.

A load gives the number whose bytes stand there, the low byte first (`loadCell_of_spans`).
A store puts down the bytes of its number in that order and changes nothing else
(`Stored`), so what a load of any width gives afterwards is known byte by byte: the datum
itself at the same address and width, what was there before at an address apart, and a
mixture where the two overlap.
-/

namespace CZero

open CZero.Action

/-! ## Data -/

namespace CellKind

/-- How many bytes a cell takes in memory. -/
def width : CellKind → Nat
  | .int => Heap.intSize
  | .ptr => Heap.ptrSize
  | .char => Heap.charSize

/-- The cell that a number in memory is loaded as. A character is extended with its sign. -/
def ofNumber : CellKind → Nat → Cell
  | .int, v => .int (Int32.ofNat v)
  | .ptr, v => .ptr (UInt64.ofNat v)
  | .char, v => .int (Int8.ofNat v).toInt32

theorem width_pos (kind : CellKind) : 0 < kind.width := by
  cases kind <;> decide

end CellKind

/-- What can be stored in a cell. -/
inductive Datum where
  | int (n : Int32)
  | ptr (q : Addr)
  | char (b : UInt8)
deriving DecidableEq, Repr

namespace Datum

/-- The kind of cell that a datum is stored in. -/
def kind : Datum → CellKind
  | .int _ => .int
  | .ptr _ => .ptr
  | .char _ => .char

/-- The number whose bytes are stored. -/
def number : Datum → Nat
  | .int n => n.toUInt32.toNat
  | .ptr q => q.toNat
  | .char b => b.toNat

/-- The cell that is loaded again. -/
def cell : Datum → Cell
  | .int n => .int n
  | .ptr q => .ptr q
  | .char b => .int b.toInt8.toInt32

/-- Store a datum at `p`. -/
def store (p : Addr) : Datum → Action Heap Unit
  | .int n => Heap.storeInt p n
  | .ptr q => Heap.storePtr p q
  | .char b => Heap.storeChar p b

/-- The bytes of a datum, the lowest first. -/
def bytes (d : Datum) : Bytes :=
  Heap.lowBytes d.kind.width d.number

@[simp] theorem length_bytes (d : Datum) : d.bytes.length = d.kind.width :=
  Heap.length_lowBytes _ _

theorem store_eq (p : Addr) (d : Datum) : d.store p = Heap.store p d.bytes := by
  cases d with
  | int n => rfl
  | ptr q => rfl
  | char b =>
    have hbyte : UInt8.ofNat b.toNat = b := UInt8.ofNat_toNat
    rw [store, Heap.storeChar, bytes, kind, number, CellKind.width, Heap.charSize, Heap.lowBytes,
      Heap.lowBytes, hbyte]

theorem number_lt (d : Datum) : d.number < 256 ^ d.kind.width := by
  cases d with
  | int n => exact n.toUInt32.toNat_lt
  | ptr q => exact q.toNat_lt
  | char b => exact b.toNat_lt

theorem ofNumber_number (d : Datum) : d.kind.ofNumber d.number = d.cell := by
  cases d with
  | int n =>
    have hn : (UInt32.ofNat n.toUInt32.toNat).toInt32 = n := by rw [UInt32.ofNat_toNat]; rfl
    exact congrArg _ hn
  | ptr q => exact congrArg _ UInt64.ofNat_toNat
  | char b =>
    have hb : (UInt8.ofNat b.toNat).toInt8 = b.toInt8 := by rw [UInt8.ofNat_toNat]
    exact congrArg (fun i : Int8 => Cell.int i.toInt32) hb

end Datum

namespace Heap

variable {h k : Heap} {p q : Addr} {kind : CellKind} {d : Datum}

/-! ## Numbers in memory -/

/-- The byte at an index of the arena, as a number. -/
def byteAt (h : Heap) (i : Nat) : Nat :=
  (h.mem[i]?.getD 0).toNat

/-- The number in `w` bytes from the index `i` on, the low byte first. -/
def numberAt (h : Heap) (i w : Nat) : Nat :=
  ∑ j ∈ Finset.range w, h.byteAt (i + j) * 256 ^ j

/-- `w` bytes at `p` lie in the arena, behind the reserved word. -/
def Spans (h : Heap) (p : Addr) (w : Nat) : Prop :=
  wordSize ≤ p.toNat ∧ p.toNat + w ≤ h.size

theorem ofLowBytes_eq_sum (bs : Bytes) :
    ofLowBytes bs = ∑ j ∈ Finset.range bs.length, (bs[j]?.getD 0).toNat * 256 ^ j := by
  induction bs with
  | nil => rfl
  | cons b bs ih =>
    rw [ofLowBytes, ih, List.length_cons, Finset.sum_range_succ', Finset.mul_sum, Nat.add_comm]
    congr 1
    · refine Finset.sum_congr rfl fun j _ => ?_
      rw [List.getElem?_cons_succ, Nat.pow_succ']
      exact Nat.mul_left_comm _ _ _
    · simp

theorem getElem?_lowBytes {w j : Nat} (hj : j < w) (n : Nat) :
    (lowBytes w n)[j]? = some (UInt8.ofNat (n / 256 ^ j)) := by
  induction w generalizing n j with
  | zero => cases hj
  | succ w ih =>
    cases j with
    | zero => simp [lowBytes]
    | succ j =>
      rw [lowBytes, List.getElem?_cons_succ, ih (Nat.lt_of_succ_lt_succ hj), Nat.pow_succ',
        Nat.div_div_eq_div_mul]

theorem load_of_spans {w : Nat} (hp : h.Spans p w) :
    h.load p w = .ok (h.mem.extract p.toNat (p.toNat + w)).toList := by
  rw [load, check_eq_ok_iff.2 hp]
  exact slice_of_le hp.2

/-- Bytes at a place are the number there. -/
theorem HoldsAt.numberAt_eq {i : Nat} {bs : Bytes} (hbs : h.HoldsAt i bs) :
    h.numberAt i bs.length = ofLowBytes bs := by
  rw [ofLowBytes_eq_sum, numberAt]
  refine Finset.sum_congr rfl fun j hj => ?_
  rw [byteAt, hbs j (Finset.mem_range.1 hj)]

theorem ofLowBytes_extract {i w : Nat} (hi : i + w ≤ h.size) :
    ofLowBytes (h.mem.extract i (i + w)).toList = h.numberAt i w := by
  have hlength : (h.mem.extract i (i + w)).toList.length = w := by
    rw [size] at hi
    rw [Array.length_toList, Array.size_extract]
    omega
  rw [← (h.holdsAt_extract i w).numberAt_eq, hlength]

/-! ## Loads -/

theorem loadCell_eq (kind : CellKind) (p : Addr) (h : Heap) :
    Machine.loadCell kind p h =
      (h.load p kind.width).map fun bs => kind.ofNumber (ofLowBytes bs) := by
  cases kind with
  | int =>
    rw [Machine.loadCell, loadInt, CellKind.width]
    cases h.load p intSize <;> rfl
  | ptr =>
    rw [Machine.loadCell, loadPtr, CellKind.width]
    cases h.load p ptrSize <;> rfl
  | char =>
    rw [Machine.loadCell, loadChar, loadByte, CellKind.width]
    cases hl : h.load p charSize with
    | error e => rfl
    | ok bs =>
      obtain ⟨b, rfl⟩ := List.length_eq_one_iff.1 (length_of_load hl)
      have hb : (UInt8.ofNat (b.toNat + 256 * 0)).toInt8 = b.toInt8 := by
        rw [Nat.mul_zero, Nat.add_zero, UInt8.ofNat_toNat]
      exact congrArg (fun i : Int8 => Except.ok (Cell.int i.toInt32)) hb.symm

/-- A load that is granted gives the number that stands there. -/
theorem loadCell_of_spans (hp : h.Spans p kind.width) :
    Machine.loadCell kind p h = .ok (kind.ofNumber (h.numberAt p.toNat kind.width)) := by
  rw [loadCell_eq, load_of_spans hp, ← ofLowBytes_extract hp.2]
  rfl

theorem check_of_not_spans {w : Nat} (hp : ¬h.Spans p w) :
    ∃ e, h.check p w = .error e ∧ e.IsMemoryFault := by
  cases hc : h.check p w with
  | ok u => exact absurd (check_eq_ok_iff.1 hc) hp
  | error e => exact ⟨e, rfl, check_errs e hc⟩

/-- A load that is not granted is a memory fault. -/
theorem loadCell_of_not_spans (hp : ¬h.Spans p kind.width) :
    ∃ e, Machine.loadCell kind p h = .error e ∧ e.IsMemoryFault := by
  obtain ⟨e, he, hmemory⟩ := check_of_not_spans hp
  refine ⟨e, ?_, hmemory⟩
  rw [loadCell_eq, load, he]
  rfl

/-- What a load gives depends on the bytes there, and on the size of the arena. -/
theorem loadCell_congr (hsize : k.size = h.size)
    (hbytes : ∀ j < kind.width, k.mem[q.toNat + j]? = h.mem[q.toNat + j]?) :
    Machine.loadCell kind q k = Machine.loadCell kind q h := by
  have hcheck : k.check q kind.width = h.check q kind.width := by
    rw [check, check, hsize]
  by_cases hq : h.Spans q kind.width
  · have hq' : k.Spans q kind.width := by
      rw [Spans, hsize]
      exact hq
    have hnumber : k.numberAt q.toNat kind.width = h.numberAt q.toNat kind.width := by
      refine Finset.sum_congr rfl fun j hj => ?_
      rw [byteAt, byteAt, hbytes j (Finset.mem_range.1 hj)]
    rw [loadCell_of_spans hq, loadCell_of_spans hq', hnumber]
  · obtain ⟨e, he, -⟩ := check_of_not_spans hq
    rw [loadCell_eq, loadCell_eq, load, load, hcheck, he]
    rfl

/-! ## Stores -/

/-- `k` is `h` after a store of `d` at `p`, with all that follows for loads. -/
structure Stored (h : Heap) (p : Addr) (d : Datum) (k : Heap) : Prop where
  /-- The arena is as large as it was. -/
  size : k.size = h.size
  /-- No memory has been asked for. -/
  used : k.used = h.used
  /-- All other bytes are what they were. -/
  elsewhere : ∀ i, ¬(p.toNat ≤ i ∧ i < p.toNat + d.kind.width) → k.mem[i]? = h.mem[i]?
  /-- The datum is loaded from there. -/
  readBack : Machine.loadCell d.kind p k = .ok d.cell
  /-- A load apart from it gives what it gave before. -/
  apart : ∀ (kind : CellKind) (q : Addr),
    q.toNat + kind.width ≤ p.toNat ∨ p.toNat + d.kind.width ≤ q.toNat →
      Machine.loadCell kind q k = Machine.loadCell kind q h
  /-- Any load sees the bytes of the datum, the lowest first, where it overlaps them. -/
  overlap : ∀ (kind : CellKind) (q : Addr), h.Spans q kind.width →
    Machine.loadCell kind q k = .ok (kind.ofNumber (∑ j ∈ Finset.range kind.width,
      (if p.toNat ≤ q.toNat + j ∧ q.toNat + j < p.toNat + d.kind.width then
        d.number / 256 ^ (q.toNat + j - p.toNat) % 256 else h.byteAt (q.toNat + j)) * 256 ^ j))

/-- The bytes of the arena after a store. -/
theorem byteAt_overwrite (hp : p.toNat + d.kind.width ≤ h.size) (i : Nat) :
    byteAt { h with mem := overwrite h.mem p.toNat d.bytes } i =
      if p.toNat ≤ i ∧ i < p.toNat + d.kind.width then d.number / 256 ^ (i - p.toNat) % 256
      else h.byteAt i := by
  rw [size] at hp
  rw [byteAt, byteAt, getElem?_overwrite, Datum.length_bytes]
  by_cases hi : p.toNat ≤ i ∧ i < p.toNat + d.kind.width
  · rw [if_pos (by omega), if_pos hi, Datum.bytes, getElem?_lowBytes (by omega), Option.getD_some]
    exact UInt8.toNat_ofNat
  · rw [if_neg (by omega), if_neg hi]

/-- The number of a datum stands where it was stored. -/
theorem numberAt_overwrite (hp : p.toNat + d.kind.width ≤ h.size) :
    numberAt { h with mem := overwrite h.mem p.toNat d.bytes } p.toNat d.kind.width =
      d.number := by
  rw [← d.length_bytes] at hp
  have hnumber := (holdsAt_overwrite hp).numberAt_eq
  rw [d.length_bytes] at hnumber
  rw [hnumber, Datum.bytes, ofLowBytes_lowBytes, Nat.mod_eq_of_lt d.number_lt]

theorem stored_overwrite (hp : h.Spans p d.kind.width) :
    Stored h p d { h with mem := overwrite h.mem p.toNat d.bytes } := by
  have hsize : size { h with mem := overwrite h.mem p.toNat d.bytes } = h.size :=
    size_overwrite _ _ _
  have helsewhere (i : Nat) (hi : ¬(p.toNat ≤ i ∧ i < p.toNat + d.kind.width)) :
      (overwrite h.mem p.toNat d.bytes)[i]? = h.mem[i]? := by
    refine getElem?_overwrite_of_outside ?_
    rw [Datum.length_bytes]
    omega
  have hspans {q : Addr} {w : Nat} (hq : h.Spans q w) :
      Spans { h with mem := overwrite h.mem p.toNat d.bytes } q w := by
    rw [Spans, hsize]
    exact hq
  have hoverlap (kind : CellKind) (q : Addr) (hq : h.Spans q kind.width) := by
    have hload := loadCell_of_spans (hspans hq)
    simp only [numberAt, byteAt_overwrite hp.2] at hload
    exact hload
  refine ⟨hsize, rfl, helsewhere, ?_, fun kind q hq => ?_, hoverlap⟩
  · rw [loadCell_of_spans (hspans hp), numberAt_overwrite hp.2, d.ofNumber_number]
  · refine loadCell_congr hsize fun j hj => helsewhere _ ?_
    omega

/-- A store that succeeds is one in the program's memory, and puts the datum there. -/
theorem stored_of_store (hs : d.store p h = .ok () k) : Stored h p d k := by
  rw [Datum.store_eq] at hs
  obtain ⟨hlo, hhi, -, rfl⟩ := store_eq_ok hs
  rw [Datum.length_bytes] at hhi
  exact stored_overwrite ⟨hlo, hhi⟩

/-- A store that is refused is a memory fault and changes nothing. -/
theorem store_refused {e : Failure} (hs : d.store p h = .error e k) :
    k = h ∧ e.IsMemoryFault := by
  rw [Datum.store_eq] at hs
  exact store_eq_error hs

/-- Where the string constants are, a store is granted exactly if it touches none of them. -/
theorem Holds.store_iff {pool : Array UInt8} (hh : h.Holds pool) :
    (∃ k, d.store p h = .ok () k) ↔ h.Spans p d.kind.width ∧
      ∀ i, p.toNat ≤ i → i < p.toNat + d.kind.width →
        ¬(wordSize ≤ i ∧ i < wordSize + pool.size) := by
  have hwidth := d.kind.width_pos
  have hlo := hh.lo
  have hhi := hh.hi
  simp only [Datum.store_eq]
  constructor
  · rintro ⟨k, hk⟩
    obtain ⟨hword, hin, hfree, -⟩ := store_eq_ok hk
    rw [Datum.length_bytes] at hin hfree
    exact ⟨⟨hword, hin⟩, by omega⟩
  · rintro ⟨⟨hword, hin⟩, hfree⟩
    -- The first byte is behind the reserved word, and it is no constant.
    have hbehind := hfree p.toNat (Nat.le_refl _) (by omega)
    refine ⟨_, store_of_free hword ?_ (by omega)⟩
    rw [Datum.length_bytes]
    exact hin

end Heap

/-! ## Instructions -/

namespace CellKind

/-- What an instruction stores of a cell with the right tag: of a character its seven low
    bits. -/
def datum? : CellKind → Cell → Option Datum
  | .int, .int n => some (.int n)
  | .ptr, .ptr q => some (.ptr q)
  | .char, .int n => some (.char (Machine.storedChar n))
  | _, _ => none

/-- What remains of a cell that went through memory. -/
def kept : CellKind → Cell → Cell
  | .char, .int n => .int (n &&& 0x7f)
  | _, c => c

variable {kind : CellKind} {c : Cell} {d : Datum}

theorem kind_of_datum? (h : kind.datum? c = some d) : d.kind = kind := by
  cases kind <;> cases c <;> cases h <;> rfl

theorem toInt_of_lt {n : Int32} (h : n.toUInt32.toNat < 128) : n.toInt = n.toUInt32.toNat := by
  refine (BitVec.toInt_eq_toNat_bmod n.toBitVec).trans ?_
  change Int.bmod (n.toUInt32.toNat : Int) (2 ^ 32) = _
  exact Int.bmod_eq_of_le (by omega) (by omega)

/-- A byte with its sign. -/
theorem toInt_toInt8 (b : UInt8) :
    b.toInt8.toInt = if b.toNat < 128 then (b.toNat : Int) else b.toNat - 256 := by
  have hlt := b.toNat_lt
  refine (BitVec.toInt_eq_toNat_cond b.toBitVec).trans ?_
  change (if 2 * b.toNat < 2 ^ 8 then (b.toNat : Int) else b.toNat - (2 ^ 8 : Nat)) = _
  split <;> split <;> omega

/-- Seven bits are a character without a sign. -/
theorem storedChar_toInt32 (n : Int32) : (Machine.storedChar n).toInt8.toInt32 = n &&& 0x7f := by
  have hlow : (n &&& 0x7f).toUInt32.toNat = n.toUInt32.toNat % 128 := by
    rw [Int32.toUInt32_and, UInt32.toNat_and]
    exact Nat.and_two_pow_sub_one_eq_mod _ 7
  have hbyte : (Machine.storedChar n).toNat = n.toUInt32.toNat % 128 := by
    rw [Machine.storedChar, UInt32.toNat_toUInt8, hlow]
    omega
  apply Int32.toInt_inj.1
  rw [Int8.toInt_toInt32, toInt_toInt8, if_pos (by omega), toInt_of_lt (by omega), hbyte, hlow]

theorem cell_of_datum? (h : kind.datum? c = some d) : d.cell = kind.kept c := by
  cases kind <;> cases c <;> cases h
  · rfl
  · rfl
  · exact congrArg _ (storedChar_toInt32 _)

end CellKind

namespace Machine

variable {m : Machine} {h k : Heap} {p : Addr} {kind : CellKind} {c : Cell} {d : Datum}
  {s : State} {rest : List Cell}

/-- The instruction that stores a cell takes it and the address off the stack. -/
theorem perform_store (hd : kind.datum? c = some d) (hstack : s.frame.stack = c :: .ptr p :: rest)
    (hk : d.store p s.host.heap = .ok () k) :
    m.perform (.store kind) s = .ok ()
      { s with
        frame := { s.frame with stack := rest }
        host := { s.host with heap := k } } := by
  obtain ⟨⟨func, code, pc, stack, locals⟩, callers, ⟨heap, console⟩, last⟩ := s
  obtain rfl := hstack
  have hstore : State.onHeap (d.store p)
      ⟨⟨func, code, pc, rest, locals⟩, callers, ⟨heap, console⟩, last⟩ = .ok () _ :=
    State.onHost_eq_ok.2 ⟨_, Host.onHeap_eq_ok.2 ⟨k, hk, rfl⟩, rfl⟩
  cases kind <;> cases c <;> cases hd
  · exact (bind_of_ok rfl).trans ((bind_of_ok rfl).trans hstore)
  · exact (bind_of_ok rfl).trans ((bind_of_ok rfl).trans hstore)
  · exact (bind_of_ok rfl).trans ((bind_of_ok rfl).trans hstore)

/-- The instruction that loads a cell puts it in the place of its address. -/
theorem perform_load (hstack : s.frame.stack = .ptr p :: rest)
    (hc : loadCell kind p s.host.heap = .ok c) :
    m.perform (.load kind) s = .ok () { s with frame := { s.frame with stack := c :: rest } } := by
  obtain ⟨⟨func, code, pc, stack, locals⟩, callers, ⟨heap, console⟩, last⟩ := s
  obtain rfl := hstack
  have hread : Host.ofHeap (loadCell kind p) ⟨heap, console⟩ = .ok c ⟨heap, console⟩ := by
    simp only [Host.ofHeap, hc]
  have hload : State.ofHeap (loadCell kind p)
      ⟨⟨func, code, pc, rest, locals⟩, callers, ⟨heap, console⟩, last⟩ = .ok c _ :=
    State.onHost_eq_ok.2 ⟨_, hread, rfl⟩
  exact (bind_of_ok rfl).trans (bind_of_ok hload)

/-- A byte of the string constants. -/
def IsConstant (m : Machine) (i : Nat) : Prop :=
  poolBase.toNat ≤ i ∧ i < poolBase.toNat + m.program.stringPool.size

/-- Cells in memory. In any heap that a machine has, and for any address:

    * a load is granted exactly if its bytes lie in the arena behind the reserved word, and
      gives the number there, low byte first; else it is a memory fault;
    * a store is granted exactly if moreover none of its bytes is a string constant; else it
      is a memory fault and leaves the heap as it is;
    * after a store the heap is as `Stored` says, for loads of every width and address;
    * a cell that an instruction has stored is what the instruction for loading it finds
      there, a character less all but its seven low bits. -/
theorem cells_lawful (m : Machine)
    (hm : ∀ n, some n ∈ m.natives → n ∈ Library.table ∨ n.LetsHeapEvolve) {h : Heap}
    (hh : m.HasHeap h) (p : Addr) :
    (∀ kind : CellKind,
      ((∃ c, loadCell kind p h = .ok c) ↔ 8 ≤ p.toNat ∧ p.toNat + kind.width ≤ h.size) ∧
      (∀ c, loadCell kind p h = .ok c → c = kind.ofNumber (h.numberAt p.toNat kind.width)) ∧
      ∀ e, loadCell kind p h = .error e → e.IsMemoryFault) ∧
    (∀ d : Datum,
      ((∃ k, d.store p h = .ok () k) ↔
        (8 ≤ p.toNat ∧ p.toNat + d.kind.width ≤ h.size) ∧
          ∀ i, p.toNat ≤ i → i < p.toNat + d.kind.width → ¬m.IsConstant i) ∧
      (∀ k, d.store p h = .ok () k → Heap.Stored h p d k) ∧
      ∀ e k, d.store p h = .error e k → k = h ∧ e.IsMemoryFault) ∧
    ∀ (kind : CellKind) (c : Cell) (d : Datum) (k : Heap), kind.datum? c = some d →
      d.store p h = .ok () k →
      (∀ (s : State) (rest : List Cell), s.host.heap = h → s.frame.stack = c :: .ptr p :: rest →
        m.perform (.store kind) s = .ok ()
          { s with
            frame := { s.frame with stack := rest }
            host := { s.host with heap := k } }) ∧
      ∀ (s : State) (rest : List Cell), s.host.heap = k → s.frame.stack = .ptr p :: rest →
        m.perform (.load kind) s = .ok ()
          { s with frame := { s.frame with stack := kind.kept c :: rest } } := by
  refine ⟨fun kind => ?_, fun d => ?_, fun kind c d k hd hk => ?_⟩
  · by_cases hp : h.Spans p kind.width
    · have hload := Heap.loadCell_of_spans hp
      refine ⟨⟨fun _ => hp, fun _ => ⟨_, hload⟩⟩, fun c hc => ?_, fun e he => ?_⟩
      · exact (Except.ok.inj (hload.symm.trans hc)).symm
      · cases hload.symm.trans he
    · obtain ⟨e, hload, hmemory⟩ := Heap.loadCell_of_not_spans hp
      refine ⟨⟨fun ⟨c, hc⟩ => ?_, fun hp' => absurd hp' hp⟩, fun c hc => ?_, fun e' he => ?_⟩
      · cases hload.symm.trans hc
      · cases hload.symm.trans hc
      · exact Except.error.inj (hload.symm.trans he) ▸ hmemory
  · exact ⟨(holds_of_hasHeap hm hh).store_iff, fun _ => Heap.stored_of_store,
      fun _ _ => Heap.store_refused⟩
  · constructor
    · rintro s rest rfl hstack
      exact perform_store hd hstack hk
    · rintro s rest rfl hstack
      refine perform_load hstack ?_
      rw [← CellKind.cell_of_datum? hd, ← CellKind.kind_of_datum? hd]
      exact (Heap.stored_of_store hk).readBack

/-- A program with the string constant `a` and nothing else. -/
def oneConstant : Machine where
  program := { strings := some #[97, 0] }
  natives := #[]

/-- An integer is stored right behind the constant, and a pointer that is loaded from the
    constant on has the bytes of both. -/
theorem cells_lawful_unaligned :
    ∃ h k, oneConstant.HasHeap h ∧ h.size = 16 ∧
      (Datum.int 0x01020304).store 10 h = .ok () k ∧ loadCell .int 10 k = .ok (.int 0x01020304) ∧
      loadCell .ptr 8 k = .ok (.ptr 0x0000010203040061) ∧
      ∃ e, (Datum.int 0).store 9 h = .error e h ∧ e.IsMemoryFault := by
  have hm : ∀ n, some n ∈ oneConstant.natives → n ∈ Library.table ∨ n.LetsHeapEvolve := by
    intro n hn
    cases hn.val
  have hh : oneConstant.HasHeap (oneConstant.boot 0 {}).host.heap := .kept (.boot 0 {})
  obtain ⟨hgrant, hstored, -⟩ := (cells_lawful oneConstant hm hh 10).2.1 (.int 0x01020304)
  obtain ⟨k, hk⟩ := hgrant.2 (by simp only [IsConstant]; decide +kernel)
  obtain ⟨hgrant', -, hrefused⟩ := (cells_lawful oneConstant hm hh 9).2.1 (.int 0)
  refine ⟨_, k, hh, by decide +kernel, hk, (hstored k hk).readBack, ?_, ?_⟩
  · rw [(hstored k hk).overlap .ptr 8 ⟨by decide, by decide +kernel⟩]
    decide +kernel
  · cases hs : (Datum.int 0).store 9 (oneConstant.boot 0 {}).host.heap with
    | ok u k =>
      -- The first byte would be the NUL of the constant.
      have hconstant := (hgrant'.1 ⟨k, hs⟩).2 9 (Nat.le_refl _) (by decide)
      exact absurd ⟨by decide, by decide⟩ hconstant
    | error e k =>
      obtain ⟨rfl, he⟩ := hrefused e k hs
      exact ⟨e, rfl, he⟩

end Machine

end CZero
