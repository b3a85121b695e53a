import Mathlib.Logic.Relation
import CZero.Proofs.Heap.Basic

/-!
# How a heap evolves

Once the string constants are mapped, a heap changes by a few operations only:
allocations of blocks, arrays and strings, checked stores of the three kinds of cells,
and a new limit (`Op`). A heap *evolves* into another if some sequence of them, of
which any may fail, leads there. Everything native functions do to the heap is of
this kind, and so is everything instructions do. An operation changes a heap in a few
ways (`Op.change`), and what these preserve, every heap reached later has
(`Evolves.preserves`).
-/

namespace CZero.Heap

open CZero.Action

/-- The operations that change a heap, apart from mapping constants. -/
inductive Op where
  | setLimit (n : Int)
  | alloc (n : Int)
  | allocArray (count : Int32) (eltSize : Int)
  | allocString (s : Bytes)
  | storeInt (p : Addr) (n : Int32)
  | storePtr (p q : Addr)
  | storeChar (p : Addr) (b : UInt8)
deriving DecidableEq, Repr

/-- The heap that an operation leaves, whether it succeeded or not. -/
def Op.apply : Op → Heap → Heap
  | .setLimit n => Heap.setLimit n
  | .alloc n => final (Heap.alloc n)
  | .allocArray count eltSize => final (Heap.allocArray count eltSize)
  | .allocString s => final (Heap.allocString s)
  | .storeInt p n => final (Heap.storeInt p n)
  | .storePtr p q => final (Heap.storePtr p q)
  | .storeChar p b => final (Heap.storeChar p b)

/-- The changes that an operation can make: it grants memory, sets the limit, or writes
    bytes that it may write; or it makes none. -/
inductive Change (h : Heap) : Heap → Prop
  | same : Change h h
  | limit (n : Int) : Change h (h.setLimit n)
  | grant (n : Nat) (bs : Bytes) : Change h (h.granted n bs)
  | grantArray (n : Nat) (count : Int32) (eltSize : Int) :
    Change h (h.grantedArray n count eltSize)
  | write (i : Nat) (bs : Bytes) : wordSize ≤ i → i + bs.length ≤ h.size →
    (h.guardHi ≤ i ∨ i + bs.length ≤ h.guardLo) → Change h { h with mem := overwrite h.mem i bs }

theorem change_alloc (h : Heap) (n : Int) : Change h (final (alloc n) h) := by
  rcases alloc_cases h n with ⟨e, he⟩ | ⟨k, -, -, hk⟩
  · rw [final, he]
    exact .same
  · rw [final, hk]
    exact .grant k []

theorem change_allocString (h : Heap) (s : Bytes) : Change h (final (allocString s) h) := by
  have halloc := allocString_eq h s
  split at halloc <;> rw [final, halloc]
  · exact .same
  · exact .grant _ s

theorem change_allocArray (h : Heap) (count : Int32) (eltSize : Int) :
    Change h (final (allocArray count eltSize) h) := by
  rcases allocArray_cases h count eltSize with ⟨e, hc⟩ | ⟨n, -, -, hc | hc⟩ <;> rw [final, hc]
  · exact .same
  · exact .grant n []
  · exact .grantArray n count eltSize

theorem change_store (h : Heap) (p : Addr) (bs : Bytes) : Change h (final (store p bs) h) := by
  cases hs : store p bs h with
  | ok u k =>
    obtain ⟨hlo, hhi, hfree, rfl⟩ := store_eq_ok hs
    rw [final, hs]
    exact .write p.toNat bs hlo hhi hfree
  | error e k =>
    obtain ⟨rfl, -⟩ := store_eq_error hs
    rw [final, hs]
    exact .same

theorem Op.change (o : Op) (h : Heap) : Change h (o.apply h) := by
  cases o with
  | setLimit n => exact .limit n
  | alloc n => exact change_alloc h n
  | allocArray count eltSize => exact change_allocArray h count eltSize
  | allocString s => exact change_allocString h s
  | storeInt p n => exact change_store h p (intBytes n)
  | storePtr p q => exact change_store h p (ptrBytes q)
  | storeChar p b => exact change_store h p [b]

/-- Some sequence of operations leads from `h` to `k`. -/
def Evolves : Heap → Heap → Prop :=
  Relation.ReflTransGen fun h k => ∃ o : Op, o.apply h = k

instance : IsPreorder Heap Evolves where
  refl _ := Relation.ReflTransGen.refl
  trans _ _ _ := Relation.ReflTransGen.trans

theorem Evolves.of_op (o : Op) (h : Heap) : Evolves h (o.apply h) :=
  Relation.ReflTransGen.single ⟨o, rfl⟩

/-- What every change preserves holds of every later heap. -/
theorem Evolves.preserves {P : Heap → Prop} (hP : ∀ h k, Change h k → P h → P k)
    {h k : Heap} (hk : Evolves h k) (hh : P h) : P k := by
  induction hk with
  | refl => exact hh
  | tail _ hstep ih =>
    obtain ⟨o, rfl⟩ := hstep
    exact hP _ _ (o.change _) ih

/-! ## Actions by which a heap evolves

None of them crashes, as long as it asks for no more than a host can give. -/

theorem alloc_within {n : Nat} (hn : n ≤ maxBlock) : Within Evolves Failure.IsFault (alloc n) := by
  refine within_of_final (Evolves.of_op (.alloc n)) fun h e k hk => ?_
  rw [alloc_eq h hn] at hk
  split at hk <;> cases hk
  trivial

theorem allocString_within (s : Bytes) : Within Evolves Failure.IsFault (allocString s) := by
  refine within_of_final (Evolves.of_op (.allocString s)) fun h e k hk => ?_
  rw [allocString_eq] at hk
  split at hk <;> cases hk
  trivial

theorem allocArray_within {w : Nat} (hw : w ≤ 255) (count : Int32) :
    Within Evolves Failure.IsFault (allocArray count w) := by
  refine within_of_final (Evolves.of_op (.allocArray count w)) fun h e k hk => ?_
  by_cases hc : count < 0
  · rw [allocArray_neg h hc] at hk
    cases hk
    trivial
  · rw [allocArray_of_width h (Int32.not_lt.1 hc) hw] at hk
    split at hk
    · cases hk
      trivial
    · split at hk <;> cases hk
      trivial

theorem storeInt_within (p : Addr) (n : Int32) : Within Evolves Failure.IsFault (storeInt p n) :=
  within_of_final (Evolves.of_op (.storeInt p n)) fun _ _ _ hk => (store_eq_error hk).2.isFault

theorem storePtr_within (p q : Addr) : Within Evolves Failure.IsFault (storePtr p q) :=
  within_of_final (Evolves.of_op (.storePtr p q)) fun _ _ _ hk => (store_eq_error hk).2.isFault

theorem storeChar_within (p : Addr) (b : UInt8) : Within Evolves Failure.IsFault (storeChar p b) :=
  within_of_final (Evolves.of_op (.storeChar p b)) fun _ _ _ hk => (store_eq_error hk).2.isFault

/-- Cells and arrays with given contents are allocated and then stored into. -/
theorem boxInt_within (n : Int32) : Within Evolves Failure.IsFault (boxInt n) :=
  (alloc_within (by decide)).bind fun p => (storeInt_within p n).bind fun _ => within_pure p

theorem boxBool_within (b : Bool) : Within Evolves Failure.IsFault (boxBool b) := by
  refine (alloc_within (n := charSize) (by decide)).bind fun p => ?_
  exact .ite (fun _ => (storeChar_within p 1).bind fun _ => within_pure p) fun _ => within_pure p

theorem fillInts_within (p : Addr) (i : Int32) (ns : List Int32) :
    Within Evolves Failure.IsFault (fillInts p i ns) := by
  induction ns generalizing i with
  | nil => exact within_pure ()
  | cons n ns ih =>
    refine within_get.bind fun h => (within_ofResult arrayElement_errs.isFault).bind fun q => ?_
    exact (storeInt_within q n).bind fun _ => ih (i + 1)

theorem fillStrings_within (p : Addr) (i : Int32) (ss : List Bytes) :
    Within Evolves Failure.IsFault (fillStrings p i ss) := by
  induction ss generalizing i with
  | nil => exact within_pure ()
  | cons s ss ih =>
    refine (allocString_within s).bind fun a => within_get.bind fun h => ?_
    refine (within_ofResult arrayElement_errs.isFault).bind fun q => ?_
    exact (storePtr_within q a).bind fun _ => ih (i + 1)

theorem fillChars_within (p : Addr) (i : Int32) (bs : Bytes) :
    Within Evolves Failure.IsFault (fillChars p i bs) := by
  induction bs generalizing i with
  | nil => exact within_pure ()
  | cons b bs ih =>
    refine within_get.bind fun h => (within_ofResult arrayElement_errs.isFault).bind fun q => ?_
    exact (storeChar_within q b).bind fun _ => ih (i + 1)

end CZero.Heap
