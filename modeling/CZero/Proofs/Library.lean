import CZero.Library.Table
import CZero.Proofs.Heap.Evolution

/-!
# What native functions may do

A native function of the library reads the heap as it likes and changes it only by
building its result there: a string, a cell, or an array of integers, strings or
characters. So whatever relation on heaps these allocations stay within
(`AllocationsWithin`), the functions stay within it too (`tame_of_mem_table`), and
none of them crashes, whatever it is called with: the table gives every function the
number of arguments it looks at, and an index or a range is checked before it is used.
Nor do they bring faults that the machine does not know.
-/

namespace CZero

open CZero.Action

/-- What native functions build in the heap stays within `G`. -/
structure Heap.AllocationsWithin (G : Heap → Heap → Prop) : Prop where
  string : ∀ s, Within G Failure.IsFault (Heap.allocString s)
  int : ∀ n, Within G Failure.IsFault (Heap.boxInt n)
  bool : ∀ b, Within G Failure.IsFault (Heap.boxBool b)
  ints : ∀ ns, Within G Failure.IsFault (Heap.allocInts ns)
  strings : ∀ ss, Within G Failure.IsFault (Heap.allocStrings ss)
  chars : ∀ bs, Within G Failure.IsFault (Heap.allocChars bs)

theorem Heap.allocationsWithin_evolves : AllocationsWithin Evolves where
  string := allocString_within
  int := boxInt_within
  bool := boxBool_within
  ints ns := (allocArray_within (by decide) _).bind fun p =>
    (fillInts_within p 0 ns).bind fun _ => within_pure p
  strings ss := (allocArray_within (by decide) _).bind fun p =>
    (fillStrings_within p 0 ss).bind fun _ => within_pure p
  chars bs := (allocArray_within (by decide) _).bind fun p =>
    (fillChars_within p 0 bs).bind fun _ => within_pure p

namespace Host

/-- The heaps of two hosts are related by `G`; the consoles are free. -/
def HeapRel (G : Heap → Heap → Prop) (s t : Host) : Prop :=
  G s.heap t.heap

instance (G : Heap → Heap → Prop) [IsPreorder Heap G] : IsPreorder Host (HeapRel G) where
  refl s := refl s.heap
  trans s t u h h' := IsTrans.trans s.heap t.heap u.heap h h'

variable {G : Heap → Heap → Prop} {E : Failure → Prop} {α : Type}

theorem onHeap_eq_ok {x : Action Heap α} {s t : Host} {a : α} :
    onHeap x s = .ok a t ↔ ∃ k, x s.heap = .ok a k ∧ t = ⟨k, s.console⟩ := by
  cases hx : x s.heap <;> simp [onHeap, hx, eq_comm, and_assoc]

theorem onHeap_eq_error {x : Action Heap α} {s t : Host} {e : Failure} :
    onHeap x s = .error e t ↔ ∃ k, x s.heap = .error e k ∧ t = ⟨k, s.console⟩ := by
  cases hx : x s.heap <;> simp [onHeap, hx, eq_comm, and_assoc]

theorem onHeap_within {x : Action Heap α} (hx : Within G E x) :
    Within (HeapRel G) E (onHeap x) where
  ok h := by
    obtain ⟨k, hk, rfl⟩ := onHeap_eq_ok.1 h
    exact hx.ok hk
  error h := by
    obtain ⟨k, hk, rfl⟩ := onHeap_eq_error.1 h
    exact hx.error hk

variable [IsPreorder Heap G]

theorem onConsole_within {x : Action Console α} (hx : ∀ c e d, x c = .error e d → E e) :
    Within (HeapRel G) E (onConsole x) where
  ok := by
    intro s a t h
    cases hc : x s.console <;> simp only [onConsole, hc] at h <;> cases h
    exact refl s.heap
  error := by
    intro s e t h
    cases hc : x s.console <;> simp only [onConsole, hc] at h <;> cases h
    exact ⟨refl s.heap, hx _ _ _ hc⟩

theorem ofHeap_within {f : Heap → Except Failure α} (hf : ∀ h, ErrsWithin E (f h)) :
    Within (HeapRel G) E (ofHeap f) where
  ok := by
    intro s a t h
    unfold ofHeap at h
    split at h <;> cases h
    exact refl s.heap
  error := by
    intro s e t h
    unfold ofHeap at h
    split at h <;> cases h
    exact ⟨refl s.heap, hf _ _ ‹_›⟩

theorem print_within (bs : Bytes) : Within (HeapRel G) E (print bs) where
  ok := by
    rintro ⟨heap, console⟩ a t ⟨⟩
    exact refl heap
  error := by
    rintro ⟨heap, console⟩ e t ⟨⟩

end Host

/-- Flushing is refused, or succeeds; it never crashes. -/
theorem Console.flush_not_isForeign {c d : Console} {e : Failure} (h : flush c = .error e d) :
    ¬e.IsForeign := by
  unfold flush at h
  split at h
  · split at h <;> cases h
    exact not_false
  · cases h

namespace Native

variable {α : Type} {args : List Cell} {i : Nat}

/-- A native action is tame if it changes the heap as `G` allows, does not crash and brings no
    faults of its own making. -/
abbrev Tame (G : Heap → Heap → Prop) (x : Action Host α) : Prop :=
  Within (Host.HeapRel G) (fun e => ¬e.IsForeign) x

variable {G : Heap → Heap → Prop} [IsPreorder Heap G]

/-! ## Arguments and results -/

theorem intArg_tame (hi : i < args.length) : Tame G (intArg args i) := by
  unfold intArg
  rw [argument_of_lt hi]
  refine (within_ofResult (.ok _)).bind fun c => within_ofResult ?_
  exact c.asInt_errs.mono fun _ => Failure.IsFault.not_isForeign

theorem ptrArg_tame (hi : i < args.length) : Tame G (ptrArg args i) := by
  unfold ptrArg
  rw [argument_of_lt hi]
  refine (within_ofResult (.ok _)).bind fun c => within_ofResult ?_
  exact c.asPtr_errs.mono fun _ => Failure.IsFault.not_isForeign

theorem ofHeap_tame {f : Heap → Except Failure α} (hf : ∀ h, ErrsWithin Failure.IsFault (f h)) :
    Tame G (Host.ofHeap f) :=
  Host.ofHeap_within fun h => (hf h).mono fun _ => Failure.IsFault.not_isForeign

theorem stringArg_tame (hi : i < args.length) : Tame G (stringArg args i) :=
  (ptrArg_tame hi).bind fun _ => ofHeap_tame fun _ =>
    .ite (fun _ => .ok _) fun _ => Heap.loadString_errs.isFault

theorem returning_tame {x : Action Heap Addr} (hx : Within G Failure.IsFault x) :
    Tame G (returning x) := by
  refine (Host.onHeap_within (hx.mono (fun _ _ h => h) ?_)).bind fun _ => within_pure _
  exact fun _ => Failure.IsFault.not_isForeign

theorem missing_tame (name : String) (args : List Cell) : Tame G ((missing name).call args) :=
  within_fault _ not_false

/-- A function of the table is only run with as many arguments as it takes. -/
theorem offered_tame {name : String} {arity : Nat} {body : List Cell → Action Host Cell}
    {args : List Cell} (hbody : args.length = arity → Tame G (body args)) :
    Tame G ((offered name arity body).call args) :=
  .ite hbody fun _ => within_fault _ not_false

theorem breach_tame (name : String) (b : Fault.Breach) : Tame G (breach name b : Action Host α) :=
  within_fault _ not_false

end Native

namespace Library

open Native Heap

variable {G : Heap → Heap → Prop} [IsPreorder Heap G] {args : List Cell}

/-! ## Terminal functions -/

theorem print_tame (h : args.length = 1) : Tame G (print args) :=
  (stringArg_tame (by omega)).bind fun s => (Host.print_within s).bind fun _ => within_pure _

theorem printLine_tame (h : args.length = 1) : Tame G (printLine args) :=
  (stringArg_tame (by omega)).bind fun s => (Host.print_within s).bind fun _ =>
    (Host.print_within _).bind fun _ => within_pure _

theorem printInt_tame (h : args.length = 1) : Tame G (printInt args) :=
  (intArg_tame (by omega)).bind fun _ => (Host.print_within _).bind fun _ => within_pure _

theorem printBool_tame (h : args.length = 1) : Tame G (printBool args) :=
  (intArg_tame (by omega)).bind fun _ => (Host.print_within _).bind fun _ => within_pure _

theorem printChar_tame (h : args.length = 1) : Tame G (printChar args) :=
  (intArg_tame (by omega)).bind fun _ => (Host.print_within _).bind fun _ => within_pure _

theorem flush_tame : Tame G (flush args) :=
  (Host.onConsole_within fun _ _ _ => Console.flush_not_isForeign).bind fun _ => within_pure _

theorem atEof_tame : Tame G (atEof args) :=
  within_get.bind fun _ => within_pure _

theorem nextLine_tame : Tame G nextLine where
  ok := by
    intro s line t h
    unfold nextLine at h
    cases hc : s.console.takeLine? <;> simp only [hc] at h <;> cases h <;> exact refl s.heap
  error := by
    intro s e t h
    unfold nextLine at h
    cases hc : s.console.takeLine? <;> simp only [hc] at h <;> cases h

theorem readLine_tame (hG : AllocationsWithin G) : Tame G (readLine args) := by
  refine (Host.onConsole_within fun _ _ _ => Console.flush_not_isForeign).bind fun _ => ?_
  refine nextLine_tame.bind fun line => ?_
  cases line with
  | some line => exact returning_tame (hG.string line)
  | none => exact breach_tame _ _

/-! ## Token functions -/

theorem baseArg_tame {name : String} {i : Nat} (hi : i < args.length) :
    Tame G (baseArg name args i) :=
  (intArg_tame hi).bind fun _ => .ite (fun _ => breach_tame _ _) fun _ => within_pure _

theorem parseBool_tame (hG : AllocationsWithin G) (h : args.length = 1) :
    Tame G (parseBool args) := by
  refine (stringArg_tame (by omega)).bind fun s => .ite (fun _ => ?_) fun _ => .ite (fun _ => ?_) ?_
  · exact returning_tame (hG.bool true)
  · exact returning_tame (hG.bool false)
  · exact fun _ => within_pure _

theorem parseInt_tame (hG : AllocationsWithin G) (h : args.length = 2) :
    Tame G (parseInt args) := by
  refine (stringArg_tame (by omega)).bind fun s => (baseArg_tame (by omega)).bind fun base => ?_
  split
  · exact returning_tame (hG.int _)
  · exact within_pure _

theorem numTokens_tame (h : args.length = 1) : Tame G (numTokens args) :=
  (stringArg_tame (by omega)).bind fun _ => within_pure _

theorem intTokens_tame (h : args.length = 2) : Tame G (intTokens args) :=
  (stringArg_tame (by omega)).bind fun _ => (baseArg_tame (by omega)).bind fun _ => within_pure _

theorem parseInts_tame (hG : AllocationsWithin G) (h : args.length = 2) :
    Tame G (parseInts args) := by
  refine (stringArg_tame (by omega)).bind fun s => (baseArg_tame (by omega)).bind fun base => ?_
  split
  · exact returning_tame (hG.ints _)
  · exact breach_tame _ _

theorem parseTokens_tame (hG : AllocationsWithin G) (h : args.length = 1) :
    Tame G (parseTokens args) :=
  (stringArg_tame (by omega)).bind fun _ => returning_tame (hG.strings _)

/-! ## String functions -/

theorem stringLength_tame (h : args.length = 1) : Tame G (stringLength args) :=
  (stringArg_tame (by omega)).bind fun _ => within_pure _

theorem stringCharAt_tame (h : args.length = 2) : Tame G (stringCharAt args) := by
  refine (stringArg_tame (by omega)).bind fun s => (intArg_tame (by omega)).bind fun i => ?_
  refine .ite (fun _ => breach_tame _ _) fun hi => ?_
  -- The index has passed the check, so there is a byte.
  rw [Int32.lt_iff_toInt_lt, not_or, Int.not_lt, Int.not_le] at hi
  have hlt : i.toInt.toNat < s.length := by
    have := hi.1
    change 0 ≤ _ at this
    omega
  rw [List.getElem?_eq_getElem hlt]
  exact within_pure _

theorem stringJoin_tame (hG : AllocationsWithin G) (h : args.length = 2) :
    Tame G (stringJoin args) :=
  (stringArg_tame (by omega)).bind fun _ => (stringArg_tame (by omega)).bind fun _ =>
    returning_tame (hG.string _)

theorem stringSub_tame (hG : AllocationsWithin G) (h : args.length = 3) :
    Tame G (stringSub args) := by
  refine (stringArg_tame (by omega)).bind fun s => (intArg_tame (by omega)).bind fun i => ?_
  refine (intArg_tame (by omega)).bind fun j => .ite (fun _ => breach_tame _ _) fun hij => ?_
  -- The range has passed the check, so it is one of the string.
  have hcut : i.toInt.toNat ≤ j.toInt.toNat ∧ j.toInt.toNat ≤ s.length := by
    simp only [Int32.lt_iff_toInt_lt, not_or, Int.not_lt] at hij
    omega
  rw [cut, if_pos hcut]
  exact (within_ofResult (.ok _)).bind fun _ => returning_tame (hG.string _)

theorem stringEqual_tame (h : args.length = 2) : Tame G (stringEqual args) :=
  (stringArg_tame (by omega)).bind fun _ => (stringArg_tame (by omega)).bind fun _ => within_pure _

theorem stringCompare_tame (h : args.length = 2) : Tame G (stringCompare args) :=
  (stringArg_tame (by omega)).bind fun _ => (stringArg_tame (by omega)).bind fun _ => within_pure _

theorem stringFromInt_tame (hG : AllocationsWithin G) (h : args.length = 1) :
    Tame G (stringFromInt args) :=
  (intArg_tame (by omega)).bind fun _ => returning_tame (hG.string _)

theorem stringFromBool_tame (hG : AllocationsWithin G) (h : args.length = 1) :
    Tame G (stringFromBool args) :=
  (intArg_tame (by omega)).bind fun _ => returning_tame (hG.string _)

theorem stringFromChar_tame (hG : AllocationsWithin G) (h : args.length = 1) :
    Tame G (stringFromChar args) :=
  (intArg_tame (by omega)).bind fun _ => .ite (fun _ => breach_tame _ _) fun _ =>
    returning_tame (hG.string _)

theorem stringToLower_tame (hG : AllocationsWithin G) (h : args.length = 1) :
    Tame G (stringToLower args) :=
  (stringArg_tame (by omega)).bind fun _ => returning_tame (hG.string _)

theorem charOrd_tame (h : args.length = 1) : Tame G (charOrd args) :=
  (intArg_tame (by omega)).bind fun _ => within_pure _

theorem charChr_tame (h : args.length = 1) : Tame G (charChr args) :=
  (intArg_tame (by omega)).bind fun _ => .ite (fun _ => breach_tame _ _) fun _ => within_pure _

/-! ## Character arrays -/

theorem lengthAt_tame (p : Addr) : Tame G (Host.ofHeap (lengthAt p)) :=
  ofHeap_tame fun _ => .ite (fun _ => .ok _) fun _ => Heap.arrayLength_errs.isFault

theorem stringTerminated_tame (h : args.length = 2) : Tame G (stringTerminated args) := by
  refine (ptrArg_tame (by omega)).bind fun p => (intArg_tame (by omega)).bind fun n => ?_
  refine (lengthAt_tame p).bind fun length => .ite (fun _ => breach_tame _ _) fun _ => ?_
  exact (ofHeap_tame fun _ => Heap.readChars_errs).bind fun _ => within_pure _

theorem stringToCharArray_tame (hG : AllocationsWithin G) (h : args.length = 1) :
    Tame G (stringToCharArray args) :=
  (stringArg_tame (by omega)).bind fun _ => returning_tame (hG.chars _)

theorem stringFromCharArray_tame (hG : AllocationsWithin G) (h : args.length = 1) :
    Tame G (stringFromCharArray args) := by
  refine (ptrArg_tame (by omega)).bind fun p => (lengthAt_tame p).bind fun length => ?_
  refine (ofHeap_tame fun _ => Heap.readChars_errs).bind fun chars => ?_
  exact .ite (fun _ => returning_tame (hG.string _)) fun _ => breach_tame _ _

/-! ## Integer functions -/

theorem absolute_tame (h : args.length = 1) : Tame G (absolute args) :=
  (intArg_tame (by omega)).bind fun _ => .ite (fun _ => breach_tame _ _) fun _ => within_pure _

theorem maximum_tame (h : args.length = 2) : Tame G (maximum args) :=
  (intArg_tame (by omega)).bind fun _ => (intArg_tame (by omega)).bind fun _ => within_pure _

theorem minimum_tame (h : args.length = 2) : Tame G (minimum args) :=
  (intArg_tame (by omega)).bind fun _ => (intArg_tame (by omega)).bind fun _ => within_pure _

theorem hexDigits_tame (hG : AllocationsWithin G) (h : args.length = 1) : Tame G (hexDigits args) :=
  (intArg_tame (by omega)).bind fun _ => returning_tame (hG.string _)

/-! ## The table -/

/-- Every function of the table is tame, whatever it is called with. -/
theorem tame_of_mem_table (hG : AllocationsWithin G) {n : Native} (hn : n ∈ table)
    (args : List Cell) : Tame G (n.call args) := by
  suffices h : ∀ n ∈ table.toList, Tame G (n.call args) from h n hn.val
  -- One line for each function that is offered, in the order of the slots.
  simp only [table, List.forall_mem_cons]
  refine ⟨missing_tame _ _, missing_tame _ _, missing_tame _ _, missing_tame _ _,
    offered_tame fun _ => atEof_tame,
    offered_tame fun _ => flush_tame,
    offered_tame print_tame,
    offered_tame printBool_tame,
    offered_tame printChar_tame,
    offered_tame printInt_tame,
    offered_tame printLine_tame,
    offered_tame fun _ => readLine_tame hG,
    missing_tame _ _, missing_tame _ _, missing_tame _ _, missing_tame _ _, missing_tame _ _,
    missing_tame _ _, missing_tame _ _, missing_tame _ _, missing_tame _ _, missing_tame _ _,
    missing_tame _ _, missing_tame _ _, missing_tame _ _,
    offered_tame intTokens_tame,
    offered_tame numTokens_tame,
    offered_tame (parseBool_tame hG),
    offered_tame (parseInt_tame hG),
    offered_tame (parseInts_tame hG),
    offered_tame (parseTokens_tame hG),
    offered_tame charChr_tame,
    offered_tame charOrd_tame,
    offered_tame stringCharAt_tame,
    offered_tame stringCompare_tame,
    offered_tame stringEqual_tame,
    offered_tame (stringFromCharArray_tame hG),
    offered_tame (stringFromBool_tame hG),
    offered_tame (stringFromChar_tame hG),
    offered_tame (stringFromInt_tame hG),
    offered_tame (stringJoin_tame hG),
    offered_tame stringLength_tame,
    offered_tame (stringSub_tame hG),
    offered_tame stringTerminated_tame,
    offered_tame (stringToCharArray_tame hG),
    offered_tame (stringToLower_tame hG),
    offered_tame absolute_tame,
    offered_tame fun _ => within_pure _,
    offered_tame fun _ => within_pure _,
    offered_tame fun _ => within_pure _,
    offered_tame (hexDigits_tame hG),
    offered_tame maximum_tame,
    offered_tame minimum_tame, fun _ h => nomatch h⟩

end Library

end CZero
