import CZero.Proofs.Run
import CZero.Proofs.Text

/-!
# The string constants stay

The string constants of a program are mapped into the heap once, behind the reserved
word, and protected. No operation on the heap changes them afterwards (`Holds.apply`):
allocations write behind them only, and a store that touches the protected range at
either edge is refused. So they are there in every heap that a machine reaches, and a
string read off the heap is the one that the program has at that offset.

This is so as long as native functions change the heap by such operations. A heap protects
one range only, so a function that maps constants of its own takes the protection from
those of the program (`stringPool_overwritten`).

The two agree up to the last NUL of the pool. A string behind that one ends with the
pool for the program, while in memory it goes on into whatever follows. In a heap that
has not been used yet, that is the padding of the block, if there is any.
-/

namespace CZero

theorem Program.stringAt?_natCast {p : Program} {o : Nat} (h : o < p.stringPool.size) :
    p.stringAt? o = some (Bytes.before 0 (p.stringPool.toList.drop o)) :=
  if_pos h

namespace Heap

/-- The bytes `pool` stand right behind the reserved word, and are protected. -/
structure Holds (pool : Array UInt8) (h : Heap) : Prop where
  image : ∃ front tail : Array UInt8, front.size = wordSize ∧ h.mem = front ++ pool ++ tail
  lo : h.guardLo = wordSize
  hi : h.guardHi = wordSize + pool.size

variable {pool : Array UInt8} {h k : Heap} {p : Addr}

/-- A new block comes behind the protected bytes. -/
theorem Holds.granted (hh : h.Holds pool) (n : Nat) (bs : Bytes) : (h.granted n bs).Holds pool := by
  obtain ⟨⟨front, tail, hfront, hmem⟩, hlo, hhi⟩ := hh
  refine ⟨⟨front, tail ++ block n bs, hfront, ?_⟩, hlo, hhi⟩
  rw [Heap.granted, hmem, Array.append_assoc]

/-- No change of a heap touches the protected bytes. -/
theorem Holds.change (hk : Change h k) (hh : h.Holds pool) : k.Holds pool := by
  cases hk with
  | same => exact hh
  | limit n => exact ⟨hh.image, hh.lo, hh.hi⟩
  | grant n bs => exact hh.granted n bs
  | grantArray n count eltSize => exact (hh.granted n []).granted headerSize _
  | write i bs hword hin hfree =>
    obtain ⟨⟨front, tail, hfront, hmem⟩, hlo, hhi⟩ := hh
    refine ⟨?_, hlo, hhi⟩
    rcases hfree with hbehind | hbefore
    · -- Behind them, the write starts in what follows the pool.
      obtain ⟨j, rfl⟩ : ∃ j, i = (front ++ pool).size + j :=
        Nat.exists_eq_add_of_le (by rw [Array.size_append, hfront, ← hhi]; exact hbehind)
      refine ⟨front, overwrite tail j bs, hfront, ?_⟩
      rw [hmem, overwrite_append]
    · -- Below the protected bytes there is the reserved word only.
      have hnil : bs = [] := List.eq_nil_of_length_eq_zero (by omega)
      rw [hnil]
      exact ⟨front, tail, hfront, hmem⟩

/-- The arena has room for the protected bytes. -/
theorem Holds.le_size (hh : h.Holds pool) : wordSize + pool.size ≤ h.size := by
  obtain ⟨⟨front, tail, hfront, hmem⟩, -, -⟩ := hh
  rw [size, hmem, Array.size_append, Array.size_append, hfront]
  exact Nat.le_add_right _ _

/-- From an offset of the pool on, the arena has the rest of the pool, and then more. -/
theorem drop_image {front tail : Array UInt8} (hfront : front.size = wordSize)
    (hmem : h.mem = front ++ pool ++ tail) {o : Nat} (ho : o ≤ pool.size) :
    h.mem.toList.drop (wordSize + o) = pool.toList.drop o ++ tail.toList := by
  rw [hmem, ← hfront, Array.append_assoc, Array.toList_append, Array.toList_append,
    ← List.drop_drop, ← Array.length_toList, List.drop_left, List.drop_append_of_le_length ho]

/-- The protected bytes, cut out of the arena. -/
theorem Holds.extract_eq (hh : h.Holds pool) :
    h.mem.extract wordSize (wordSize + pool.size) = pool := by
  obtain ⟨⟨front, tail, hfront, hmem⟩, -, -⟩ := hh
  have hdrop := drop_image hfront hmem (Nat.zero_le _)
  rw [Nat.add_zero, List.drop_zero] at hdrop
  apply Array.toList_inj.1
  rw [Array.toList_extract, List.extract_eq_take_drop, hdrop, Nat.add_sub_cancel_left,
    ← Array.length_toList, List.take_left]

/-- The string at an offset of the pool, in an arena that goes on with `tail`. -/
theorem loadString_image {front tail : Array UInt8} (hfront : front.size = wordSize)
    (hmem : h.mem = front ++ pool ++ tail) {o : Nat} (ho : o ≤ pool.size)
    (hp : p.toNat = wordSize + o) :
    h.loadString p = if 0 ∈ pool.toList.drop o ++ tail.toList then
      .ok (Bytes.before 0 (pool.toList.drop o ++ tail.toList))
      else .error (.fault (.unterminated p)) := by
  have hin : p.toNat ≤ h.size := by
    rw [size, hmem, Array.size_append, Array.size_append, hfront]
    omega
  rw [loadString_eq (by omega) hin, hp, drop_image hfront hmem ho]

/-- A string that ends in the pool is read as it stands there. -/
theorem Holds.loadString_eq (hh : h.Holds pool) {o : Nat} (ho : o ≤ pool.size)
    (hp : p.toNat = wordSize + o) (hnul : 0 ∈ pool.toList.drop o) :
    h.loadString p = .ok (Bytes.before 0 (pool.toList.drop o)) := by
  obtain ⟨⟨front, tail, hfront, hmem⟩, -, -⟩ := hh
  rw [loadString_image hfront hmem ho hp, if_pos (List.mem_append_left _ hnul),
    Bytes.before_append hnul]

end Heap

namespace Native

/-- A native function that changes the heap by allocations and checked stores only, and maps no
    constants of its own. -/
def LetsHeapEvolve (n : Native) : Prop :=
  ∀ args, Action.Within (Host.HeapRel Heap.Evolves) (fun _ => True) (n.call args)

end Native

namespace Machine

open Heap

variable {m : Machine} {h : Heap} {p : Addr} {o : Nat}

/-- What a machine keeps between two runs, from the beginning on. -/
inductive Kept (m : Machine) : Residue → Prop
  | boot (limit : Int) (console : Console) : Kept m (m.boot limit console)
  | execute {fuel : Nat} {r r' : Residue} {o : Outcome} :
    Kept m r → m.execute fuel r = some (o, r') → Kept m r'

/-- The heaps that a machine ever has: those it keeps, and those of the states of its runs. -/
inductive HasHeap (m : Machine) : Heap → Prop
  | kept {r : Residue} : Kept m r → HasHeap m r.host.heap
  | running {r : Residue} {s₀ s : State} {n : Nat} :
    Kept m r → m.start? r = some s₀ → m.after n s₀ = some s → HasHeap m s.host.heap

/-- The first heap of a machine: the reserved word, the string constants, and zeros up
    to the end of the block. -/
theorem initialHeap_mem (m : Machine) :
    m.initialHeap.mem = Array.replicate wordSize 0 ++ m.program.stringPool ++
      Array.replicate (padded m.program.stringPool.size - m.program.stringPool.size) 0 := by
  rw [initialHeap, mapReadOnly_eq]
  simp only [Array.length_toList]
  rw [block_eq (Nat.le_of_eq (Array.length_toList ..)), Array.append_assoc]
  rfl

theorem holds_boot (limit : Int) (console : Console) :
    (m.boot limit console).host.heap.Holds m.program.stringPool := by
  refine ⟨⟨_, _, Array.size_replicate, m.initialHeap_mem⟩, ?_, ?_⟩ <;>
    simp only [boot, setLimit, initialHeap, mapReadOnly_eq, Array.length_toList] <;> rfl

theorem obeys_evolves (hm : ∀ n, some n ∈ m.natives → n ∈ Library.table ∨ n.LetsHeapEvolve) :
    m.Obeys (Host.HeapRel Evolves) fun _ => True where
  native n hn args := by
    rcases hm n hn with htable | hevolve
    · have htame := Library.tame_of_mem_table allocationsWithin_evolves htable args
      exact htame.mono (fun _ _ h => h) fun _ _ _ => trivial
    · exact (hevolve args).mono (fun _ _ h => h) fun _ _ _ => trivial
  heap _ _ _ h := h
  fault _ _ := trivial

section

variable (hm : ∀ n, some n ∈ m.natives → n ∈ Library.table ∨ n.LetsHeapEvolve)
include hm

theorem holds_of_kept {r : Residue} (hr : m.Kept r) :
    r.host.heap.Holds m.program.stringPool := by
  induction hr with
  | boot limit console => exact holds_boot limit console
  | execute _ hrun ih =>
    have hevolves : Evolves _ _ := execute_host (obeys_evolves hm) hrun
    exact hevolves.preserves (fun _ _ => Holds.change) ih

/-- Every heap that a machine has holds the string constants. -/
theorem holds_of_hasHeap (hh : m.HasHeap h) : h.Holds m.program.stringPool := by
  cases hh with
  | kept hr => exact holds_of_kept hm hr
  | running hr hstart hrun =>
    have hevolves : Evolves _ _ := after_host (obeys_evolves hm) hrun
    rw [host_start hstart] at hevolves
    exact hevolves.preserves (fun _ _ => Holds.change) (holds_of_kept hm hr)

end

/-- A string that the pool does not end: before the first run there is the padding
    behind the pool, or nothing. -/
theorem loadString_boot_unterminated (limit : Int) (console : Console)
    (hp : p.toNat = wordSize + o) (ho : o < m.program.stringPool.size)
    (hnul : 0 ∉ m.program.stringPool.toList.drop o) :
    (m.boot limit console).host.heap.loadString p =
      if m.program.stringPool.size % 8 = 0 then .error (.fault (.unterminated p))
      else .ok (m.program.stringPool.toList.drop o) := by
  have hload := loadString_image (h := (m.boot limit console).host.heap) Array.size_replicate
    m.initialHeap_mem (Nat.le_of_lt ho) hp
  rw [hload, Array.toList_replicate]
  by_cases hfull : m.program.stringPool.size % 8 = 0
  · -- The pool is not empty, so it fills whole words and nothing is padded.
    have hpad : padded m.program.stringPool.size - m.program.stringPool.size = 0 := by
      rw [padded, wordSize]
      omega
    rw [if_pos hfull, hpad, List.replicate_zero, List.append_nil, if_neg hnul]
  · obtain ⟨n, hpad⟩ :
        ∃ n, padded m.program.stringPool.size - m.program.stringPool.size = n + 1 := by
      refine Nat.exists_eq_succ_of_ne_zero ?_
      rw [padded, wordSize]
      omega
    rw [if_neg hfull, hpad, List.replicate_succ, if_pos (by simp),
      Bytes.before_append_of_notMem hnul]
    exact congrArg _ (List.append_nil _)

/-- The string constants of a program stay as they are, in every heap that a machine has whose
    native functions are those of the library or map no constants of their own, and are read
    off it as the program has them. For a string behind the last NUL of the pool that is so at
    first, if the pool does not fill its last word; if it does, there is no end to the
    string. -/
theorem stringPool_intact (m : Machine)
    (hm : ∀ n, some n ∈ m.natives → n ∈ Library.table ∨ n.LetsHeapEvolve) :
    (∀ h, m.HasHeap h →
      h.mem.extract poolBase.toNat (poolBase.toNat + m.program.stringPool.size) =
        m.program.stringPool ∧
      ∀ (o : Nat) (p : Addr), p.toNat = poolBase.toNat + o → o < m.program.stringPool.size →
        0 ∈ m.program.stringPool.toList.drop o →
        ∃ text, m.program.stringAt? o = some text ∧ h.loadString p = .ok text) ∧
    ∀ limit console (o : Nat) (p : Addr), p.toNat = poolBase.toNat + o →
      o < m.program.stringPool.size → 0 ∉ m.program.stringPool.toList.drop o →
      (m.program.stringPool.size % 8 ≠ 0 → ∃ text, m.program.stringAt? o = some text ∧
        (m.boot limit console).host.heap.loadString p = .ok text) ∧
      (m.program.stringPool.size % 8 = 0 → ∃ c, c.kind = .memory ∧
        (m.boot limit console).host.heap.loadString p = .error (.fault c)) := by
  constructor
  · intro h hh
    have hholds := holds_of_hasHeap hm hh
    refine ⟨hholds.extract_eq, fun o p hp ho hnul => ?_⟩
    exact ⟨_, Program.stringAt?_natCast ho, hholds.loadString_eq (Nat.le_of_lt ho) hp hnul⟩
  · intro limit console o p hp ho hnul
    have hload := loadString_boot_unterminated limit console hp ho hnul
    constructor
    · intro hpart
      refine ⟨_, Program.stringAt?_natCast ho, ?_⟩
      rw [hload, if_neg hpart, Bytes.before_eq_self hnul]
    · intro hfull
      refine ⟨.unterminated p, rfl, ?_⟩
      rw [hload, if_pos hfull]

/-- A program with the string constants `a` and `b`, of which the second is not ended,
    on a machine with a native function of its own. -/
def twoStrings : Machine where
  program :=
    { strings := some #[97, 0, 98]
      functions := some #[{ body := some #[0x14, 0, 0, 0x10, 99, 0x55] }] }
  natives := #[some ⟨"greet", fun _ => Native.returnString [104, 105]⟩]

theorem stringPool_intact_twoStrings :
    (∀ h, twoStrings.HasHeap h → h.loadString poolBase = .ok [97]) ∧
      (twoStrings.boot 0 {}).host.heap.loadString (poolBase + 2) = .ok [98] := by
  have hm : ∀ n, some n ∈ twoStrings.natives → n ∈ Library.table ∨ n.LetsHeapEvolve := by
    intro n hn
    obtain rfl := Option.some.inj (Array.mem_singleton.1 hn)
    refine .inr fun args => ?_
    exact (Native.returning_tame (allocString_within _)).mono (fun _ _ h => h) fun _ _ => trivial
  obtain ⟨hruns, hboot⟩ := stringPool_intact twoStrings hm
  constructor
  · intro h hh
    obtain ⟨text, htext, hload⟩ := (hruns h hh).2 0 poolBase rfl (by decide) (by decide)
    obtain rfl : [97] = text := Option.some.inj htext
    exact hload
  · obtain ⟨text, htext, hload⟩ :=
      (hboot 0 {} 2 (poolBase + 2) rfl (by decide) (by decide)).1 (by decide)
    obtain rfl : [98] = text := Option.some.inj htext
    exact hload

/-- A program that calls a native function, which maps constants of its own, though none, and
    then stores a character at its string constant. -/
def remapping : Machine where
  program :=
    { strings := some #[97, 98, 0]
      functions := some #[{ body := some #[0xB7, 0, 0, 0x57, 0x14, 0, 0, 0x10, 88, 0x55] }]
      natives := some #[{}] }
  natives := #[some ⟨"map", fun _ => Native.returning (mapReadOnly [])⟩]

/-- The string constants do not stay if a native function takes their protection away. -/
theorem stringPool_overwritten :
    ¬∀ (m : Machine) (h : Heap), m.HasHeap h →
      h.mem.extract poolBase.toNat (poolBase.toNat + m.program.stringPool.size) =
        m.program.stringPool := by
  intro hall
  have hrun : ((remapping.start? (remapping.boot 0 {})).bind (remapping.after 5)).map
      (fun s => s.host.heap.mem.extract 8 11) = some #[88, 98, 0] := by
    decide +kernel
  obtain ⟨s, hs, hmem⟩ := Option.map_eq_some_iff.1 hrun
  obtain ⟨s₀, hstart, hafter⟩ := Option.bind_eq_some_iff.1 hs
  have hpool : s.host.heap.mem.extract 8 11 = #[97, 98, 0] :=
    hall remapping _ (.running (.boot 0 {}) hstart hafter)
  exact absurd (hmem.symm.trans hpool) (by decide)

end Machine

end CZero
