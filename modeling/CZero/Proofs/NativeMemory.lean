import CZero.Proofs.Heap.Filling

/-!
# Native functions leave memory alone

A native function of the library never touches memory that a program has already: it
gives back an integer, the null pointer, or the address of something new behind the heap
(`Gives`), and if it fails, it has changed nothing, unless the limit refused it something
half-way (`Fails`). That is checked along each function (`LeavesMemory`): as long as it
reads, it may fail and has changed nothing, and what it builds at its end is built behind
the heap. So it holds of every function of the table (`memory_undisturbed`).

Arrays with 2 ^ 32 elements or more are the exception of `Fails.miscounted`. Their elements
come out of a string in the heap, which has to be as long. Such an array is left behind when
its filling fails, so it is not true without exception that only the limit can fail a function
that has changed something (`array_left_behind`).
-/

namespace CZero

open CZero.Action

/-! ## How long strings and their fields are -/

theorem Bytes.length_before_lt {bs : Bytes} (h : 0 ∈ bs) : (before 0 bs).length < bs.length := by
  induction bs with
  | nil => cases h
  | cons b bs ih =>
    by_cases hb : b = 0
    · simp [before, hb]
    · have hmem : 0 ∈ bs := List.mem_of_ne_of_mem (Ne.symm hb) h
      simpa [before, hb] using ih hmem

/-- A string that is read off the heap is shorter than the heap. -/
theorem Heap.length_of_loadString {h : Heap} {p : Addr} {s : Bytes} (hs : h.loadString p = .ok s) :
    s.length < h.size := by
  obtain ⟨-, -, hnul, rfl⟩ := loadString_eq_ok_iff.1 hs
  refine Nat.lt_of_lt_of_le (Bytes.length_before_lt hnul) ?_
  rw [List.length_drop, Array.length_toList]
  exact Nat.sub_le _ _

theorem Utf8.length_piecesAux_le (acc : List Piece) (skip : Nat) (bs : Bytes) :
    (piecesAux acc skip bs).length ≤ acc.length + bs.length := by
  induction bs generalizing acc skip with
  | nil => simp [piecesAux]
  | cons a rest ih =>
    rw [List.length_cons]
    cases skip with
    | succ n =>
      rw [piecesAux]
      exact Nat.le_trans (ih acc n) (by omega)
    | zero =>
      -- One piece more, which takes at least one byte.
      have hmore (p : Piece) (n : Nat) :
          (piecesAux (p :: acc) n rest).length ≤ acc.length + (rest.length + 1) := by
        have := ih (p :: acc) n
        rw [List.length_cons] at this
        omega
      rw [piecesAux]
      split
      · exact hmore _ _
      · exact hmore _ 0

namespace Text

open Utf8 (Piece)

theorem length_closeField_le (cur : List Piece) (done : List Bytes) :
    (closeField cur done).length ≤ done.length + cur.length := by
  unfold closeField
  cases cur with
  | nil => exact Nat.le_refl _
  | cons p cur => simp

theorem length_fieldsAux_le (cur : List Piece) (done : List Bytes) (ps : List Piece) :
    (fieldsAux cur done ps).length ≤ done.length + cur.length + ps.length := by
  induction ps generalizing cur done with
  | nil =>
    rw [fieldsAux, List.length_reverse]
    exact length_closeField_le cur done
  | cons p ps ih =>
    rw [fieldsAux, List.length_cons]
    split
    · refine Nat.le_trans (ih [] _) ?_
      have := length_closeField_le cur done
      rw [List.length_nil]
      omega
    · refine Nat.le_trans (ih (p :: cur) done) ?_
      rw [List.length_cons]
      omega

/-- A string has no more fields than bytes. -/
theorem length_fields_le (bs : Bytes) : (fields bs).length ≤ bs.length := by
  have hfields := length_fieldsAux_le [] [] (Utf8.pieces bs)
  have hpieces := Utf8.length_piecesAux_le [] 0 bs
  simp only [List.length_nil, Nat.zero_add] at hfields hpieces
  exact Nat.le_trans hfields hpieces

theorem length_of_integers? {base : Nat} {bs : Bytes} {ns : List Int32}
    (h : integers? base bs = some ns) : ns.length = (fields bs).length := by
  rw [integers?] at h
  generalize fields bs = fs at h ⊢
  induction fs generalizing ns with
  | nil =>
    cases h
    rfl
  | cons f fs ih =>
    rw [List.mapM_cons] at h
    obtain ⟨n, -, h⟩ := Option.bind_eq_some_iff.1 h
    obtain ⟨ns', hns, ⟨⟩⟩ := Option.bind_eq_some_iff.1 h
    exact congrArg (· + 1) (ih hns)

end Text

/-! ## What native functions give back -/

namespace Native

variable {α : Type} {h : Heap} {args : List Cell}

/-- What a native function gives back when the heap was `h`: an integer or the null
    pointer, having changed nothing, or the address of something new. -/
inductive Gives (h : Heap) : Cell → Host → Prop
  | int (n : Int32) (c : Console) : Gives h (.int n) ⟨h, c⟩
  | null (c : Console) : Gives h .null ⟨h, c⟩
  | built {p : Addr} {k : Heap} (c : Console) : h.Fresh p → h.Extends k →
    Gives h (.ptr p) ⟨k, c⟩

theorem Gives.extend {v : Cell} {t : Host} (hv : Gives h v t) : h.Extends t.heap := by
  cases hv with
  | int n c => exact refl h
  | null c => exact refl h
  | built c hp hk => exact hk

theorem Gives.fresh {p : Addr} {t : Host} (hv : Gives h (.ptr p) t) (hp : p ≠ Addr.null) :
    h.Fresh p := by
  cases hv with
  | null c => exact absurd rfl hp
  | built c hp hk => exact hp

/-- An action on a host with the heap `h` leaves the memory of `h` alone. -/
def LeavesMemory (h : Heap) (x : Action Host Cell) : Prop :=
  ∀ c, EndsIn (Gives h) (fun e t => h.Fails h.size e t.heap) (x ⟨h, c⟩)

theorem LeavesMemory.extend {x : Action Host Cell} (hx : LeavesMemory h x) (c : Console) :
    h.Extends (final x ⟨h, c⟩).heap := by
  have hends := hx c
  rw [final]
  cases hr : x ⟨h, c⟩ with
  | ok v t =>
    rw [hr] at hends
    exact Gives.extend hends
  | error e t =>
    rw [hr] at hends
    exact Heap.Fails.extend hends

theorem leavesMemory_int (n : Int32) : LeavesMemory h (pure (.int n)) :=
  fun c => .int n c

theorem leavesMemory_null : LeavesMemory h (pure .null) :=
  fun c => .null c

theorem leavesMemory_fault (c : Fault.Cause) : LeavesMemory h (fault c) :=
  fun _ => .unchanged _

theorem LeavesMemory.ite {p : Prop} [Decidable p] {x y : Action Host Cell} (hx : LeavesMemory h x)
    (hy : LeavesMemory h y) : LeavesMemory h (if p then x else y) := by
  split
  · exact hx
  · exact hy

/-- Reading changes nothing, so what counts is what follows, for the values that can be
    read off `h`. -/
theorem Reads.leavesMemory_bind_of {x : Action Host α} {f : α → Action Host Cell} (hx : Reads x)
    (hf : ∀ a, (∃ c t, x ⟨h, c⟩ = .ok a t) → LeavesMemory h (f a)) :
    LeavesMemory h (x >>= f) := by
  intro c
  rcases hx c (rfl : h.mem = h.mem) with ⟨a, d, hs, -⟩ | ⟨e, d, hs, -⟩
  · rw [bind_of_ok hs]
    exact hf a ⟨c, _, hs⟩ d
  · rw [bind_of_error hs]
    exact .unchanged e

theorem Reads.leavesMemory_bind {x : Action Host α} {f : α → Action Host Cell} (hx : Reads x)
    (hf : ∀ a, LeavesMemory h (f a)) : LeavesMemory h (x >>= f) :=
  hx.leavesMemory_bind_of fun a _ => hf a

theorem missing_leavesMemory (name : String) (args : List Cell) :
    LeavesMemory h ((missing name).call args) :=
  leavesMemory_fault _

theorem offered_leavesMemory {name : String} {arity : Nat} {body : List Cell → Action Host Cell}
    (hbody : LeavesMemory h (body args)) : LeavesMemory h ((offered name arity body).call args) :=
  hbody.ite (leavesMemory_fault _)

section

variable (hh : h.Placed)
include hh

/-- A string argument is shorter than the heap. -/
theorem length_of_stringArg {i : Nat} {s : Bytes} (hs : ∃ c t, stringArg args i ⟨h, c⟩ = .ok s t) :
    s.length < h.size := by
  obtain ⟨c, t, hs⟩ := hs
  obtain ⟨p, u, hp, hs⟩ := bind_eq_ok.1 hs
  have hreads : Reads (ptrArg args i) := ptrArg_reads
  obtain ⟨d, rfl⟩ : ∃ d, u = ⟨h, d⟩ := by
    rcases hreads c (rfl : h.mem = h.mem) with ⟨_, d, hp', -⟩ | ⟨_, d, hp', -⟩ <;>
      cases hp.symm.trans hp'
    exact ⟨d, rfl⟩
  have hload : stringAt p h = .ok s := by
    cases hr : stringAt p h <;> simp only [Host.ofHeap, hr] at hs <;> cases hs
    rfl
  rw [stringAt] at hload
  split at hload
  · cases hload
    exact Nat.lt_of_lt_of_le (by decide) hh.reserved
  · exact Heap.length_of_loadString hload

variable (hsize : h.size < 2 ^ 63)
include hsize

/-- What is built, is built behind the heap. -/
theorem leavesMemory_build {b : Build} (hb : b.elements ≤ h.size) :
    LeavesMemory h (returning b.run) := by
  intro c
  have hbuilt := b.buildsBehind hh hsize
  rw [returning]
  cases hr : b.run h with
  | ok p k =>
    rw [hr] at hbuilt
    rw [bind_of_ok (Host.onHeap_eq_ok.2 ⟨k, hr, rfl⟩)]
    exact .built c hbuilt.1 hbuilt.2
  | error e k =>
    rw [hr] at hbuilt
    rw [bind_of_error (Host.onHeap_eq_error.2 ⟨k, hr, rfl⟩)]
    exact Heap.Fails.mono hbuilt hb

theorem leavesMemory_returnString (s : Bytes) : LeavesMemory h (returnString s) :=
  leavesMemory_build (b := .string s) hh hsize (Nat.zero_le _)

end

end Native

namespace Library

open Native

variable {h : Heap} {args : List Cell}

/-! ## Functions that build nothing -/

theorem atEof_leavesMemory : LeavesMemory h (atEof args) :=
  fun c => .int _ c

theorem flush_leavesMemory : LeavesMemory h (flush args) :=
  (reads_onConsole _).leavesMemory_bind fun _ => leavesMemory_null

theorem print_leavesMemory : LeavesMemory h (print args) :=
  stringArg_reads.leavesMemory_bind fun s =>
    (printing_reads s).leavesMemory_bind fun _ => leavesMemory_null

theorem printLine_leavesMemory : LeavesMemory h (printLine args) :=
  stringArg_reads.leavesMemory_bind fun s => (printing_reads s).leavesMemory_bind fun _ =>
    (printing_reads _).leavesMemory_bind fun _ => leavesMemory_null

theorem printInt_leavesMemory : LeavesMemory h (printInt args) :=
  intArg_reads.leavesMemory_bind fun _ =>
    (printing_reads _).leavesMemory_bind fun _ => leavesMemory_null

theorem printBool_leavesMemory : LeavesMemory h (printBool args) :=
  intArg_reads.leavesMemory_bind fun _ =>
    (printing_reads _).leavesMemory_bind fun _ => leavesMemory_null

theorem printChar_leavesMemory : LeavesMemory h (printChar args) :=
  intArg_reads.leavesMemory_bind fun _ =>
    (printing_reads _).leavesMemory_bind fun _ => leavesMemory_null

theorem numTokens_leavesMemory : LeavesMemory h (numTokens args) :=
  stringArg_reads.leavesMemory_bind fun _ => leavesMemory_int _

theorem intTokens_leavesMemory : LeavesMemory h (intTokens args) :=
  stringArg_reads.leavesMemory_bind fun _ =>
    baseArg_reads.leavesMemory_bind fun _ => leavesMemory_int _

theorem stringLength_leavesMemory : LeavesMemory h (stringLength args) :=
  stringArg_reads.leavesMemory_bind fun _ => leavesMemory_int _

theorem stringCharAt_leavesMemory : LeavesMemory h (stringCharAt args) := by
  refine stringArg_reads.leavesMemory_bind fun s => intArg_reads.leavesMemory_bind fun i => ?_
  refine (leavesMemory_fault _).ite ?_
  split
  · exact leavesMemory_int _
  · exact fun _ => .unchanged _

theorem stringEqual_leavesMemory : LeavesMemory h (stringEqual args) :=
  stringArg_reads.leavesMemory_bind fun _ =>
    stringArg_reads.leavesMemory_bind fun _ => leavesMemory_int _

theorem stringCompare_leavesMemory : LeavesMemory h (stringCompare args) :=
  stringArg_reads.leavesMemory_bind fun _ =>
    stringArg_reads.leavesMemory_bind fun _ => leavesMemory_int _

theorem charOrd_leavesMemory : LeavesMemory h (charOrd args) :=
  intArg_reads.leavesMemory_bind fun _ => leavesMemory_int _

theorem charChr_leavesMemory : LeavesMemory h (charChr args) :=
  intArg_reads.leavesMemory_bind fun _ => (leavesMemory_fault _).ite (leavesMemory_int _)

theorem stringTerminated_leavesMemory : LeavesMemory h (stringTerminated args) :=
  ptrArg_reads.leavesMemory_bind fun p => intArg_reads.leavesMemory_bind fun n =>
    (lengthAt_reads p).leavesMemory_bind fun _ => (leavesMemory_fault _).ite
      ((reads_ofHeap (Heap.readChars_ofBytes _ p n)).leavesMemory_bind fun _ => leavesMemory_int _)

theorem absolute_leavesMemory : LeavesMemory h (absolute args) :=
  intArg_reads.leavesMemory_bind fun _ => (leavesMemory_fault _).ite (leavesMemory_int _)

theorem maximum_leavesMemory : LeavesMemory h (maximum args) :=
  intArg_reads.leavesMemory_bind fun _ =>
    intArg_reads.leavesMemory_bind fun _ => leavesMemory_int _

theorem minimum_leavesMemory : LeavesMemory h (minimum args) :=
  intArg_reads.leavesMemory_bind fun _ =>
    intArg_reads.leavesMemory_bind fun _ => leavesMemory_int _

/-! ## Functions that build something -/

section

variable (hh : h.Placed) (hsize : h.size < 2 ^ 63)
include hh hsize

theorem readLine_leavesMemory : LeavesMemory h (readLine args) := by
  refine (reads_onConsole _).leavesMemory_bind fun _ => ?_
  refine nextLine_reads.leavesMemory_bind fun line => ?_
  cases line with
  | some line => exact leavesMemory_returnString hh hsize line
  | none => exact leavesMemory_fault _

theorem parseBool_leavesMemory : LeavesMemory h (parseBool args) := by
  have hcell (b : Bool) : LeavesMemory h (returning (Heap.boxBool b)) :=
    leavesMemory_build (b := .bool b) hh hsize (Nat.zero_le _)
  exact stringArg_reads.leavesMemory_bind fun _ =>
    (hcell true).ite ((hcell false).ite leavesMemory_null)

theorem parseInt_leavesMemory : LeavesMemory h (parseInt args) := by
  refine stringArg_reads.leavesMemory_bind fun s => baseArg_reads.leavesMemory_bind fun base => ?_
  split
  · exact leavesMemory_build (b := .int _) hh hsize (Nat.zero_le _)
  · exact leavesMemory_null

theorem parseInts_leavesMemory : LeavesMemory h (parseInts args) := by
  refine stringArg_reads.leavesMemory_bind_of fun s hs => ?_
  refine baseArg_reads.leavesMemory_bind fun base => ?_
  have hlength := length_of_stringArg hh hs
  split
  · rename_i ns hns
    refine leavesMemory_build (b := .ints ns) hh hsize ?_
    have := Text.length_of_integers? hns
    have := Text.length_fields_le s
    change ns.length ≤ h.size
    omega
  · exact leavesMemory_fault _

theorem parseTokens_leavesMemory : LeavesMemory h (parseTokens args) := by
  refine stringArg_reads.leavesMemory_bind_of fun s hs => ?_
  refine leavesMemory_build (b := .strings (Text.fields s)) hh hsize ?_
  exact Nat.le_trans (Text.length_fields_le s) (Nat.le_of_lt (length_of_stringArg hh hs))

theorem stringJoin_leavesMemory : LeavesMemory h (stringJoin args) :=
  stringArg_reads.leavesMemory_bind fun _ => stringArg_reads.leavesMemory_bind fun _ =>
    leavesMemory_returnString hh hsize _

theorem stringSub_leavesMemory : LeavesMemory h (stringSub args) :=
  stringArg_reads.leavesMemory_bind fun _ => intArg_reads.leavesMemory_bind fun _ =>
    intArg_reads.leavesMemory_bind fun _ => (leavesMemory_fault _).ite
      ((reads_ofResult _).leavesMemory_bind fun _ => leavesMemory_returnString hh hsize _)

theorem stringFromInt_leavesMemory : LeavesMemory h (stringFromInt args) :=
  intArg_reads.leavesMemory_bind fun _ => leavesMemory_returnString hh hsize _

theorem stringFromBool_leavesMemory : LeavesMemory h (stringFromBool args) :=
  intArg_reads.leavesMemory_bind fun _ => leavesMemory_returnString hh hsize _

theorem stringFromChar_leavesMemory : LeavesMemory h (stringFromChar args) :=
  intArg_reads.leavesMemory_bind fun _ =>
    (leavesMemory_fault _).ite (leavesMemory_returnString hh hsize _)

theorem stringToLower_leavesMemory : LeavesMemory h (stringToLower args) :=
  stringArg_reads.leavesMemory_bind fun _ => leavesMemory_returnString hh hsize _

theorem stringToCharArray_leavesMemory : LeavesMemory h (stringToCharArray args) := by
  refine stringArg_reads.leavesMemory_bind_of fun s hs => ?_
  refine leavesMemory_build (b := .chars (s ++ [0])) hh hsize ?_
  have := length_of_stringArg hh hs
  change (s ++ [0]).length ≤ h.size
  rw [List.length_append, List.length_singleton]
  omega

theorem stringFromCharArray_leavesMemory : LeavesMemory h (stringFromCharArray args) :=
  ptrArg_reads.leavesMemory_bind fun p => (lengthAt_reads p).leavesMemory_bind fun n =>
    (reads_ofHeap (Heap.readChars_ofBytes _ p n)).leavesMemory_bind fun _ =>
      (leavesMemory_returnString hh hsize _).ite (leavesMemory_fault _)

theorem hexDigits_leavesMemory : LeavesMemory h (hexDigits args) :=
  intArg_reads.leavesMemory_bind fun _ => leavesMemory_returnString hh hsize _

/-! ## The table -/

/-- Every function of the table leaves memory alone, whatever it is called with. -/
theorem leavesMemory_of_mem_table {n : Native} (hn : n ∈ table) (args : List Cell) :
    LeavesMemory h (n.call args) := by
  suffices hall : ∀ n ∈ table.toList, LeavesMemory h (n.call args) from hall n hn.val
  -- One line for each function that is offered, in the order of the slots.
  simp only [table, List.forall_mem_cons]
  refine ⟨missing_leavesMemory _ _, missing_leavesMemory _ _, missing_leavesMemory _ _,
    missing_leavesMemory _ _,
    offered_leavesMemory atEof_leavesMemory,
    offered_leavesMemory flush_leavesMemory,
    offered_leavesMemory print_leavesMemory,
    offered_leavesMemory printBool_leavesMemory,
    offered_leavesMemory printChar_leavesMemory,
    offered_leavesMemory printInt_leavesMemory,
    offered_leavesMemory printLine_leavesMemory,
    offered_leavesMemory (readLine_leavesMemory hh hsize),
    missing_leavesMemory _ _, missing_leavesMemory _ _, missing_leavesMemory _ _,
    missing_leavesMemory _ _, missing_leavesMemory _ _, missing_leavesMemory _ _,
    missing_leavesMemory _ _, missing_leavesMemory _ _, missing_leavesMemory _ _,
    missing_leavesMemory _ _, missing_leavesMemory _ _, missing_leavesMemory _ _,
    missing_leavesMemory _ _,
    offered_leavesMemory intTokens_leavesMemory,
    offered_leavesMemory numTokens_leavesMemory,
    offered_leavesMemory (parseBool_leavesMemory hh hsize),
    offered_leavesMemory (parseInt_leavesMemory hh hsize),
    offered_leavesMemory (parseInts_leavesMemory hh hsize),
    offered_leavesMemory (parseTokens_leavesMemory hh hsize),
    offered_leavesMemory charChr_leavesMemory,
    offered_leavesMemory charOrd_leavesMemory,
    offered_leavesMemory stringCharAt_leavesMemory,
    offered_leavesMemory stringCompare_leavesMemory,
    offered_leavesMemory stringEqual_leavesMemory,
    offered_leavesMemory (stringFromCharArray_leavesMemory hh hsize),
    offered_leavesMemory (stringFromBool_leavesMemory hh hsize),
    offered_leavesMemory (stringFromChar_leavesMemory hh hsize),
    offered_leavesMemory (stringFromInt_leavesMemory hh hsize),
    offered_leavesMemory (stringJoin_leavesMemory hh hsize),
    offered_leavesMemory stringLength_leavesMemory,
    offered_leavesMemory (stringSub_leavesMemory hh hsize),
    offered_leavesMemory stringTerminated_leavesMemory,
    offered_leavesMemory (stringToCharArray_leavesMemory hh hsize),
    offered_leavesMemory (stringToLower_leavesMemory hh hsize),
    offered_leavesMemory absolute_leavesMemory,
    offered_leavesMemory (leavesMemory_int _),
    offered_leavesMemory (leavesMemory_int _),
    offered_leavesMemory (leavesMemory_int _),
    offered_leavesMemory (hexDigits_leavesMemory hh hsize),
    offered_leavesMemory maximum_leavesMemory,
    offered_leavesMemory minimum_leavesMemory, List.forall_mem_nil _⟩

end

/-- A native function never disturbs memory that exists. It is called, with any arguments
    and any console, on a heap that operations of the heap have led to. However the call
    ends, no byte of the heap has changed, neither its size nor what the program has asked
    for has become less, and the protected range is the same. If it gives back an address
    other than the null pointer, that is the address of a word behind all that was there.
    If it fails, and not by the fault of the limit, then the heap is what it was, as long as
    it has less than 2 ^ 32 bytes. In a larger heap there is one exception, a fault of the
    index of an array: an array of 2 ^ 32 elements or more is given up when its length turns
    out to be miscounted. -/
theorem memory_undisturbed {n : Native} (hn : n ∈ table) (args : List Cell) {h : Heap}
    (hh : h.Reached) (hsize : h.size < 2 ^ 63) (c : Console) :
    h.Extends (final (n.call args) ⟨h, c⟩).heap ∧
    (∀ p t, n.call args ⟨h, c⟩ = .ok (.ptr p) t → p ≠ Addr.null → h.Fresh p) ∧
    (h.size < 2 ^ 32 → ∀ e t, n.call args ⟨h, c⟩ = .error e t →
      e ≠ .fault (.heapLimit h.limit) → t.heap = h) ∧
    ∀ e t, n.call args ⟨h, c⟩ = .error e t → e ≠ .fault (.heapLimit h.limit) →
      (∀ i count, e ≠ .fault (.arrayIndex i count)) → t.heap = h := by
  have hcall := leavesMemory_of_mem_table hh.placed hsize hn args c
  cases hr : n.call args ⟨h, c⟩ with
  | ok v t =>
    rw [hr] at hcall
    have hgives : Gives h v t := hcall
    rw [final, hr]
    refine ⟨hgives.extend, ?_, by rintro _ _ _ ⟨⟩, by rintro _ _ ⟨⟩⟩
    rintro p t' ⟨⟩ hp
    exact hgives.fresh hp
  | error e t =>
    rw [hr] at hcall
    have hfails : h.Fails h.size e t.heap := hcall
    rw [final, hr]
    refine ⟨hfails.extend, by rintro _ _ ⟨⟩, ?_, ?_⟩
    · rintro hsmall e' t' ⟨⟩ hlimit
      rcases hfails.reason with hsame | hrefused | ⟨hlarge, -⟩
      · exact hsame
      · exact absurd hrefused hlimit
      · exact absurd hlarge (Nat.not_le.2 hsmall)
    · rintro e' t' ⟨⟩ hlimit hindex
      rcases hfails.reason with hsame | hrefused | ⟨-, i, count, rfl⟩
      · exact hsame
      · exact absurd hrefused hlimit
      · exact absurd rfl (hindex i count)

/-- A heap with one string, which has two fields. -/
def twoFields : Heap :=
  final (Heap.mapReadOnly [0x61, 0x62, 0x20, 0x63, 0]) .empty

theorem memory_undisturbed_twoFields :
    ∃ n ∈ table, n.name = "parse_tokens" ∧ ∃ t,
      n.call [.ptr 8] ⟨twoFields, {}⟩ = .ok (.ptr 32) t ∧ twoFields.Fresh 32 ∧
        twoFields.Extends t.heap := by
  have hmem : offered "parse_tokens" 1 parseTokens ∈ table := by
    simp [table]
  have hreached : twoFields.Reached := .mapReadOnly _ .empty
  obtain ⟨_, t, rfl, ht⟩ : ∃ v t, v = .ptr 32 ∧
      (offered "parse_tokens" 1 parseTokens).call [.ptr 8] ⟨twoFields, {}⟩ = .ok v t :=
    EndsIn.exists_eq_ok (by decide +kernel)
  obtain ⟨hextends, hfresh, -⟩ :=
    memory_undisturbed hmem [.ptr 8] hreached (by decide) {}
  rw [final, ht] at hextends
  exact ⟨_, hmem, rfl, t, ht, hfresh 32 t ht (by decide), hextends⟩

/-- A heap with one string, at the address 8. -/
def withString (text : Bytes) : Heap :=
  final (Heap.allocString text) .empty

section

variable (text : Bytes)

theorem reached_withString : (withString text).Reached :=
  .op (.allocString text) .empty

theorem withString_eq : withString text = Heap.granted .empty (text.length + 1) text := by
  have halloc := Heap.allocString_eq .empty text
  rw [if_neg (Heap.not_overLimit (by decide) _)] at halloc
  rw [withString, final, halloc]

theorem size_withString : (withString text).size = 8 + Heap.padded (text.length + 1) := by
  rw [withString_eq, Heap.size_granted]
  rfl

theorem limit_withString : (withString text).limit = 0 := by
  rw [withString_eq]
  rfl

theorem stringAt_withString {text : Bytes} (htext : 0 ∉ text) :
    stringAt 8 (withString text) = .ok text := by
  have hload := Heap.loadString_granted (h := .empty) (by decide) (by decide) text
  rw [Bytes.before_eq_self htext, ← withString_eq] at hload
  exact stringAt_of_loadString hload

end

/-- The letter a, `n` times. -/
def letters (n : Nat) : Bytes :=
  List.replicate n 0x61

theorem length_letters (n : Nat) : (letters n).length = n :=
  List.length_replicate

theorem notMem_letters (n : Nat) : 0 ∉ letters n :=
  fun h => absurd (List.eq_of_mem_replicate h) (by decide)

/-- A function can fail and leave something in the heap, though there is no limit. With a
    string of 2 ^ 32 - 1 letters, the array of the letters is allocated, and the first of them
    does not fit in. -/
theorem array_left_behind :
    (withString (letters (2 ^ 32 - 1))).Reached ∧
      (withString (letters (2 ^ 32 - 1))).size < 2 ^ 63 ∧
      ∃ n ∈ table, n.name = "string_to_chararray" ∧ ∃ t,
        n.call [.ptr 8] ⟨withString (letters (2 ^ 32 - 1)), {}⟩ =
          .error (.fault (.arrayIndex 0 0)) t ∧
        t.heap ≠ withString (letters (2 ^ 32 - 1)) := by
  -- The number stays a variable, lest the letters are counted one by one.
  obtain ⟨n, hn⟩ : ∃ n : Nat, n = 2 ^ 32 - 1 := ⟨_, rfl⟩
  rw [← hn]
  have hmem : offered "string_to_chararray" 1 stringToCharArray ∈ table := by
    simp [table]
  have hreached := reached_withString (letters n)
  have hsize : (withString (letters n)).size < 2 ^ 63 := by
    rw [size_withString, length_letters, Heap.padded, Heap.wordSize]
    omega
  have hlength : (letters n ++ [0]).length = 2 ^ 32 := by
    rw [List.length_append, length_letters, List.length_singleton]
    omega
  obtain ⟨k, hk, hgrown⟩ := Heap.allocChars_of_wrapped hreached.placed hsize
    (Int.le_of_eq (limit_withString _)) hlength
  refine ⟨hreached, hsize, _, hmem, rfl, ⟨k, {}⟩, ?_, fun h => ?_⟩
  · have hp := stringAt_withString (notMem_letters n)
    refine (bind_of_ok (stringArg_eq rfl hp)).trans ?_
    exact bind_of_error (Host.onHeap_eq_error.2 ⟨k, hk, rfl⟩)
  · have hsame : k = withString (letters n) := h
    rw [hsame] at hgrown
    exact Nat.lt_irrefl _ hgrown

end Library

end CZero
