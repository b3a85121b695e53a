import CZero.Proofs.Heap.Filling
import CZero.Proofs.Heap.Limit

/-!
# What the limit on the heap says about its size

The limit is on the bytes that a program asks for, while blocks take whole words. A
block of at least one byte takes at most one word for each of its bytes, so the arena
grows by no more than eight bytes for each byte that is counted (`Charged`). A block of
no bytes takes a word and counts nothing. An array of no bytes is no exception, since its
header pays for both of its blocks; but if the limit refuses the header, the block of
its elements stays.

So an action *pays* if it asks for no block of no bytes, apart from elements of an array,
and then one word may be left unpaid when it fails at the limit (`Pays`). The native
functions of the library pay (`Library.pays_of_mem_table`).
-/

namespace CZero

open CZero.Action HeapState

/-- `k` has the limit of `h` and keeps to it if `h` does. -/
structure Heap.KeepsLimit (h k : Heap) : Prop where
  limit : k.limit = h.limit
  kept : 0 < h.limit → h.used ≤ h.limit → k.used ≤ h.limit

instance : IsPreorder Heap Heap.KeepsLimit where
  refl _ := ⟨rfl, fun _ h => h⟩
  trans h k l hk hl := by
    refine ⟨hl.limit.trans hk.limit, fun hpos hused => ?_⟩
    rw [← hk.limit] at hpos ⊢
    exact hl.kept hpos (hk.limit ▸ hk.kept (hk.limit ▸ hpos) hused)

/-- `k` keeps the limit of `h`, and its arena is larger than that of `h` by at most one
    word for each byte that was counted since, and `z` words. -/
structure Heap.Charged (z : Nat) (h k : Heap) : Prop extends Heap.KeepsLimit h k where
  space : k.size + wordSize * h.used ≤ h.size + wordSize * (k.used + z)

namespace Heap.Charged

variable {h k l : Heap} {y z : Nat}

theorem refl (z : Nat) (h : Heap) : Charged z h h where
  toKeepsLimit := ⟨rfl, fun _ h => h⟩
  space := by
    rw [Nat.mul_add]
    omega

theorem trans (hk : Charged y h k) (hl : Charged z k l) : Charged (y + z) h l where
  toKeepsLimit := IsTrans.trans h k l hk.toKeepsLimit hl.toKeepsLimit
  space := by
    have := hk.space
    have := hl.space
    simp only [wordSize] at *
    omega

theorem zero_trans (hk : Charged 0 h k) (hl : Charged z k l) : Charged z h l :=
  Nat.zero_add z ▸ hk.trans hl

theorem mono (hk : Charged y h k) (hyz : y ≤ z) : Charged z h k where
  toKeepsLimit := hk.toKeepsLimit
  space := by
    have := hk.space
    simp only [wordSize] at *
    omega

end Heap.Charged

/-- The words that an action which fails may leave unpaid: one, if the limit refused it
    something. -/
def Failure.unpaid : Failure → Nat
  | .fault (.heapLimit _) => 1
  | _ => 0

section

variable {σ α β : Type} [HeapState σ]

/-- An action pays for the memory it takes, but for what it leaves when it fails. -/
structure Pays (x : Action σ α) : Prop where
  ok : ∀ {s a t}, x s = .ok a t → (heap s).Charged 0 (heap t)
  error : ∀ {s e t}, x s = .error e t → (heap s).Charged e.unpaid (heap t)

/-! ## Actions made of others -/

/-- An action that leaves the heap alone. -/
theorem pays_of_same {x : Action σ α} (hx : ∀ s, heap (final x s) = heap s) : Pays x where
  ok {s a t} h := by
    have := hx s
    rw [final, h] at this
    rw [this]
    exact .refl _ _
  error {s e t} h := by
    have := hx s
    rw [final, h] at this
    rw [this]
    exact .refl _ _

theorem pays_pure (a : α) : Pays (pure a : Action σ α) :=
  pays_of_same fun _ => rfl

theorem pays_get : Pays (get : Action σ σ) :=
  pays_of_same fun _ => rfl

theorem pays_fault (c : Fault.Cause) : Pays (fault c : Action σ α) :=
  pays_of_same fun _ => rfl

theorem pays_ofResult (r : Except Failure α) : Pays (ofResult r : Action σ α) := by
  refine pays_of_same fun s => ?_
  cases r with
  | ok a => rfl
  | error e => rfl

/-- The rest of an action has to pay for the values that the first part gives. -/
theorem Pays.bind_of {x : Action σ α} {f : α → Action σ β} (hx : Pays x)
    (hf : ∀ a, (∃ s t, x s = .ok a t) → Pays (f a)) : Pays (x >>= f) where
  ok {s b u} h := by
    obtain ⟨a, t, ht, hu⟩ := bind_eq_ok.1 h
    exact (hx.ok ht).zero_trans ((hf a ⟨s, t, ht⟩).ok hu)
  error {s e u} h := by
    rcases bind_eq_error.1 h with h | ⟨a, t, ht, hu⟩
    · exact hx.error h
    · exact (hx.ok ht).zero_trans ((hf a ⟨s, t, ht⟩).error hu)

theorem Pays.bind {x : Action σ α} {f : α → Action σ β} (hx : Pays x) (hf : ∀ a, Pays (f a)) :
    Pays (x >>= f) :=
  hx.bind_of fun a _ => hf a

theorem Pays.ite {p : Prop} [Decidable p] {x y : Action σ α} (hx : Pays x) (hy : Pays y) :
    Pays (if p then x else y) := by
  split
  · exact hx
  · exact hy

end

namespace Heap

/-! ## Allocations and stores -/

/-- A request that is not over the limit keeps to it. -/
theorem keepsLimit_granted {h : Heap} {n : Nat} (hn : ¬h.overLimit n) (bs : Bytes) :
    h.KeepsLimit (h.granted n bs) where
  limit := rfl
  kept hpos _ := by
    simp only [overLimit, passesLimit, hpos, granted, Bool.and_eq_true, decide_eq_true_eq, true_and,
      Int.not_lt] at hn ⊢
    exact hn

theorem reserve_keepsLimit (n : Nat) : Within KeepsLimit (fun _ => True) (reserve n) := by
  refine within_of_final (fun h => ?_) fun _ _ _ _ => trivial
  rw [final, reserve_eq]
  by_cases hover : h.overLimit n
  · rw [if_pos hover]
    exact refl h
  · rw [if_neg hover]
    exact keepsLimit_granted hover []

theorem request_keepsLimit (n : Int) : Within KeepsLimit (fun _ => True) (request n) := by
  refine within_of_final (fun h => ?_) fun _ _ _ _ => trivial
  rcases request_cases h n with ⟨e, he⟩ | ⟨k, -, -, hover, hk⟩
  · rw [final, he]
    exact refl h
  · rw [final, hk]
    exact keepsLimit_granted hover []

theorem write_keepsLimit (i : Nat) (bs : Bytes) :
    Within KeepsLimit (fun _ => True) (write i bs) := by
  refine within_of_final (fun h => ?_) fun _ _ _ _ => trivial
  by_cases hfit : i + bs.length ≤ h.mem.size
  · rw [final, write_of_le hfit]
    exact ⟨rfl, fun _ h => h⟩
  · rw [final, write, if_neg hfit]
    exact refl h

theorem allocArray_keepsLimit (count : Int32) (eltSize : Int) :
    Within KeepsLimit (fun _ => True) (allocArray count eltSize) := by
  simp only [allocArray, fault_bind]
  refine .ite (fun _ => within_fault _ trivial) fun _ => ?_
  refine (request_keepsLimit _).bind fun elems => (reserve_keepsLimit _).bind fun header => ?_
  exact (write_keepsLimit _ _).bind fun _ => within_pure _

/-- A block of at least one byte takes at most a word for each. -/
theorem padded_le {n : Nat} (hn : 0 < n) : padded n ≤ wordSize * n := by
  simp only [padded, wordSize]
  omega

theorem charged_granted {h : Heap} {n : Nat} (hn : ¬h.overLimit n) (hpos : 0 < n) (bs : Bytes) :
    h.Charged 0 (h.granted n bs) where
  toKeepsLimit := keepsLimit_granted hn bs
  space := by
    have := padded_le hpos
    rw [size_granted]
    simp only [wordSize, granted] at *
    omega

/-- A block of no bytes takes a word. -/
theorem charged_granted_zero {h : Heap} (hn : ¬h.overLimit 0) :
    h.Charged 1 (h.granted 0 []) where
  toKeepsLimit := keepsLimit_granted hn []
  space := by
    rw [size_granted]
    simp only [padded, wordSize, granted]
    omega

theorem alloc_pays {n : Int} (hn : n ≠ 0) : Pays (alloc n) where
  ok {h p k} hk := by
    rcases alloc_cases h n with ⟨e, he⟩ | ⟨j, rfl, hover, hj⟩
    · rw [he] at hk
      cases hk
    · rw [hj] at hk
      cases hk
      exact charged_granted hover (by omega) []
  error {h e k} hk := by
    rcases alloc_cases h n with ⟨e', he⟩ | ⟨j, -, -, hj⟩
    · rw [he] at hk
      cases hk
      exact .refl _ h
    · rw [hj] at hk
      cases hk

theorem allocString_pays (s : Bytes) : Pays (allocString s) where
  ok {h p k} hk := by
    rw [allocString_eq] at hk
    split at hk <;> cases hk
    exact charged_granted ‹_› (Nat.succ_pos _) s
  error {h e k} hk := by
    rw [allocString_eq] at hk
    split at hk <;> cases hk
    exact .refl _ h

/-- The header of an array pays for the block of its elements too, unless it is refused. -/
theorem allocArray_pays (count : Int32) (eltSize : Int) : Pays (allocArray count eltSize) where
  ok {h p k} hk := by
    refine ⟨(allocArray_keepsLimit count eltSize).ok hk, ?_⟩
    rcases allocArray_cases h count eltSize with ⟨c, hc⟩ | ⟨n, -, -, hc | hc⟩ <;>
      rw [hc] at hk <;> cases hk
    have hused : (h.grantedArray n count eltSize).used = h.used + n + headerSize := by
      rw [grantedArray, granted, granted]
    have hsize : (h.grantedArray n count eltSize).size = h.size + padded n + padded headerSize := by
      rw [grantedArray, size_granted, size_granted]
    change (h.grantedArray n count eltSize).size + _ ≤
      h.size + wordSize * ((h.grantedArray n count eltSize).used + 0)
    rw [hused, hsize]
    simp only [HeapState.heap, padded, wordSize, headerSize]
    omega
  error {h e k} hk := by
    refine ⟨((allocArray_keepsLimit count eltSize).error hk).1, ?_⟩
    rcases allocArray_cases h count eltSize with ⟨c, hc⟩ | ⟨n, -, -, hc | hc⟩ <;>
      rw [hc] at hk <;> cases hk
    · exact (Charged.refl _ h).space
    · change (h.granted n []).size + wordSize * h.used ≤ h.size + wordSize * (h.used + n + 1)
      rw [size_granted]
      simp only [padded, wordSize]
      omega

theorem store_pays (p : Addr) (bs : Bytes) : Pays (store p bs) where
  ok {h u k} hk := by
    obtain ⟨-, -, -, rfl⟩ := store_eq_ok hk
    exact ⟨⟨rfl, fun _ h => h⟩, by simp [HeapState.heap, size]⟩
  error {h e k} hk := by
    obtain ⟨rfl, -⟩ := store_eq_error hk
    exact .refl _ k

/-! ## Cells and arrays with given contents -/

theorem boxInt_pays (n : Int32) : Pays (boxInt n) :=
  (alloc_pays (by decide)).bind fun p => (store_pays p _).bind fun _ => pays_pure p

theorem boxBool_pays (b : Bool) : Pays (boxBool b) :=
  (alloc_pays (by decide)).bind fun p =>
    .ite ((store_pays p _).bind fun _ => pays_pure p) (pays_pure p)

section

variable {α : Type} {make : α → Action Heap Bytes} (hmake : ∀ x, Pays (make x))
include hmake

/-- Filling an array pays if making its elements does, since their room is there. -/
theorem fillWith_pays (p : Addr) (i : Int32) (xs : List α) : Pays (fillWith make p i xs) := by
  induction xs generalizing i with
  | nil => exact pays_pure ()
  | cons x xs ih =>
    refine (hmake x).bind fun bs => pays_get.bind fun h => ?_
    exact (pays_ofResult _).bind fun q => (store_pays q bs).bind fun _ => ih (i + 1)

theorem allocWith_pays (w : Nat) (xs : List α) : Pays (allocWith make w xs) :=
  (allocArray_pays _ _).bind fun p => (fillWith_pays hmake p 0 xs).bind fun _ => pays_pure p

end

theorem stringElement_pays (s : Bytes) : Pays (stringElement s) :=
  (allocString_pays s).bind fun _ => pays_pure _

end Heap

/-! ## Native functions -/

theorem Native.Build.pays (b : Build) : Pays b.run := by
  cases b with
  | string s => exact Heap.allocString_pays s
  | int n => exact Heap.boxInt_pays n
  | bool b => exact Heap.boxBool_pays b
  | ints ns =>
    rw [run, Heap.allocInts_eq]
    exact Heap.allocWith_pays (fun _ => pays_pure _) _ ns
  | strings ss =>
    rw [run, Heap.allocStrings_eq]
    exact Heap.allocWith_pays Heap.stringElement_pays _ ss
  | chars bs =>
    rw [run, Heap.allocChars_eq]
    exact Heap.allocWith_pays (fun _ => pays_pure _) _ bs

theorem Native.Reads.pays {α : Type} {x : Action Host α} (hx : Reads x) : Pays x := by
  refine pays_of_same ?_
  rintro ⟨h, c⟩
  rcases hx c (rfl : h.mem = h.mem) with ⟨a, d, hs, -⟩ | ⟨e, d, hs, -⟩ <;> rw [final, hs] <;> rfl

theorem Host.onHeap_pays {α : Type} {x : Action Heap α} (hx : Pays x) : Pays (onHeap x) where
  ok h := by
    obtain ⟨k, hk, rfl⟩ := onHeap_eq_ok.1 h
    exact hx.ok hk
  error h := by
    obtain ⟨k, hk, rfl⟩ := onHeap_eq_error.1 h
    exact hx.error hk

theorem Native.Builds.pays {x : Action Host Cell} (hx : Builds x) : Pays x := by
  induction hx with
  | nothing hx => exact hx.pays
  | one b => exact (Host.onHeap_pays b.pays).bind fun _ => pays_pure _
  | after hx _ ih => exact hx.pays.bind ih

/-- A native function that pays for the memory it takes. -/
def Native.PaysAlways (n : Native) : Prop :=
  ∀ args, Pays (n.call args)

theorem Library.pays_of_mem_table {n : Native} (hn : n ∈ table) : n.PaysAlways :=
  fun args => (builds_of_mem_table hn args).pays

end CZero
