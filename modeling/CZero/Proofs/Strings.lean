import CZero.Proofs.Heap.Blocks
import CZero.Proofs.Input
import CZero.Proofs.NativeMemory

/-!
# Strings are byte strings

The string functions of the library do to the strings in the heap what their names say of
byte strings (`Bytewise`): the length, a byte, a part, two strings joined, and whether and
how two strings differ. Strings are compared by the lexicographic order of their bytes
(`compareBytes_eq_order`).

Each function reads its arguments off memory up to the first NUL, so no string has one, and
a string that is given back in a new block is read as it was written (`givesString_of_notMem`).
Whatever functions are called, and in whatever order, they only add to the heap
(`extend_of_calls`), and so what was once read at an address is read there ever after
(`stringAt_of_extends`).
-/

namespace CZero

open CZero.Action

/-! ## Strings in memory -/

namespace Heap

variable {h k : Heap} {p : Addr} {text : Bytes}

/-- A heap that its operations have led to, without a limit, whose addresses do not wrap
    around. -/
structure Unlimited (h : Heap) : Prop where
  reached : h.Reached
  limit : h.limit ≤ 0
  size : h.size < 2 ^ 63

/-- A string stays, whatever comes behind the heap that it is in. -/
theorem Extends.loadString (hk : h.Extends k) (hp : h.loadString p = .ok text) :
    k.loadString p = .ok text := by
  obtain ⟨hlo, hnul, hbytes⟩ := loadString_eq_ok_iff_holdsAt.1 hp
  exact loadString_eq_ok_iff_holdsAt.2 ⟨hlo, hnul, hk.holdsAt hbytes⟩

end Heap

namespace Native

variable {h k : Heap} {p : Addr} {text : Bytes} {s : Host}

theorem stringAt_of_extends (hk : h.Extends k) (hp : stringAt p h = .ok text) :
    stringAt p k = .ok text := by
  rw [stringAt] at hp ⊢
  split at hp
  · rwa [if_pos ‹_›]
  · rw [if_neg ‹_›]
    exact hk.loadString hp

/-- A string that is read has no NUL. -/
theorem notMem_of_stringAt (hp : stringAt p h = .ok text) : 0 ∉ text := by
  rw [stringAt] at hp
  split at hp
  · cases hp
    exact List.not_mem_nil
  · obtain ⟨-, -, -, rfl⟩ := Heap.loadString_eq_ok_iff.1 hp
    exact Bytes.notMem_before 0 _

/-- The action gives back the address of a string that is read as `text`. -/
def GivesString (x : Action Host Cell) (s : Host) (text : Bytes) : Prop :=
  ∃ p t, x s = .ok (.ptr p) t ∧ stringAt p t.heap = .ok text

/-- The action fails with a fault that is the user's, and nothing has changed. -/
def Blames (x : Action Host Cell) (s : Host) : Prop :=
  ∃ c : Fault.Cause, c.kind = .user ∧ x s = .error (.fault c) s

/-- A string that is given back in a new block is read up to its first NUL. -/
theorem givesString_before (hs : s.heap.Unlimited) (text : Bytes) :
    GivesString (returnString text) s (text.before 0) := by
  refine ⟨_, _, Library.returnString_of_limit hs.limit, stringAt_of_loadString ?_⟩
  exact Heap.loadString_granted hs.reached.placed.reserved hs.size text

/-- A string without NUL is given back in a new block. -/
theorem givesString_of_notMem (hs : s.heap.Unlimited) (htext : 0 ∉ text) :
    GivesString (returnString text) s text := by
  have hgives := givesString_before hs text
  rwa [Bytes.before_eq_self htext] at hgives

end Native

namespace Library

open Native

variable {a b c : Bytes} {p q r : Addr} {s t u : Host}

/-! ## The order of strings -/

/-- How a byte string stands to another in the lexicographic order: -1 before it, 0 if they
    are equal, 1 behind it. -/
def order (a b : Bytes) : Int32 :=
  if a < b then -1 else if a = b then 0 else 1

theorem compareBytes_eq_order (a b : Bytes) : compareBytes a b = order a b := by
  induction a generalizing b with
  | nil => cases b <;> simp [compareBytes, order]
  | cons x as ih =>
    cases b with
    | nil => simp [compareBytes, order]
    | cons y bs =>
      simp only [compareBytes, order, List.cons_lt_cons_iff, List.cons_eq_cons]
      rcases Std.lt_trichotomy x y with hlt | rfl | hlt
      · simp [hlt]
      · simp [ih, order]
      · have hne : x ≠ y := (UInt8.ne_of_lt hlt).symm
        simp [hlt, hne, UInt8.lt_asymm hlt]

theorem order_of_lt (h : a < b) : order a b = -1 :=
  if_pos h

theorem order_self (a : Bytes) : order a a = 0 := by
  rw [order, if_neg (List.lt_irrefl a), if_pos rfl]

theorem order_of_gt (h : b < a) : order a b = 1 := by
  have hnot : ¬a < b := fun hab => List.lt_irrefl a (List.lt_trans hab h)
  have hne : a ≠ b := by
    rintro rfl
    exact hnot h
  rw [order, if_neg hnot, if_neg hne]

/-- Strings are in the same place only if they are equal. -/
theorem order_eq_zero_iff : order a b = 0 ↔ a = b := by
  constructor
  · intro h
    rcases Std.lt_trichotomy a b with hlt | heq | hgt
    · rw [order_of_lt hlt] at h
      exact absurd h (by decide)
    · exact heq
    · rw [order_of_gt hgt] at h
      exact absurd h (by decide)
  · rintro rfl
    exact order_self a

/-- The order is antisymmetric. -/
theorem order_swap (a b : Bytes) : order b a = -order a b := by
  rcases Std.lt_trichotomy a b with h | rfl | h
  · rw [order_of_lt h, order_of_gt h]
    rfl
  · rw [order_self]
    rfl
  · rw [order_of_lt h, order_of_gt h]

/-- The order is transitive, and strictly so if either step is strict. -/
theorem order_trans (hab : order a b ≤ 0) (hbc : order b c ≤ 0) :
    order a c ≤ 0 ∧ (order a c = 0 → order a b = 0 ∧ order b c = 0) := by
  have hlt (h : a < c) :
      order a c ≤ 0 ∧ (order a c = 0 → order a b = 0 ∧ order b c = 0) := by
    rw [order_of_lt h]
    exact ⟨by decide, fun h => absurd h (by decide)⟩
  rcases Std.lt_trichotomy a b with h | rfl | h
  · rcases Std.lt_trichotomy b c with h' | rfl | h'
    · exact hlt (List.lt_trans h h')
    · exact hlt h
    · rw [order_of_gt h'] at hbc
      exact absurd hbc (by decide)
  · exact ⟨hbc, fun h => ⟨order_self a, h⟩⟩
  · rw [order_of_gt h] at hab
    exact absurd hab (by decide)

/-! ## The string functions -/

/-- A call of the function `name`. -/
def call (name : String) (args : List Cell) : Action Host Cell :=
  match find? name with
  | some n => n.call args
  | none => fault (.nativeUnavailable name)

theorem stringLength_eq (hp : stringAt p s.heap = .ok a) :
    stringLength [.ptr p] s = .ok (.int (Int32.ofNat a.length)) s := by
  rw [stringLength, bind_of_ok (stringArg_eq rfl hp)]
  rfl

theorem stringCharAt_eq (hp : stringAt p s.heap = .ok a) {i : Int32} (hlo : 0 ≤ i.toInt)
    (hhi : i.toInt < a.length) : ∃ x, a[i.toInt.toNat]? = some x ∧
      stringCharAt [.ptr p, .int i] s = .ok (.int (Int32.ofNat x.toNat)) s := by
  have hlt : i.toInt.toNat < a.length := by omega
  have hin : ¬(i < 0 ∨ a.length ≤ i.toInt) := by
    rw [Int32.lt_iff_toInt_lt, Int32.toInt_zero]
    omega
  refine ⟨a[i.toInt.toNat], List.getElem?_eq_getElem hlt, ?_⟩
  rw [stringCharAt, bind_of_ok (stringArg_eq rfl hp), bind_of_ok (intArg_eq rfl), if_neg hin,
    List.getElem?_eq_getElem hlt]
  rfl

theorem stringCharAt_blames (hp : stringAt p s.heap = .ok a) {i : Int32}
    (hi : ¬(0 ≤ i.toInt ∧ i.toInt < a.length)) : Blames (stringCharAt [.ptr p, .int i]) s := by
  have hout : i < 0 ∨ a.length ≤ i.toInt := by
    rw [Int32.lt_iff_toInt_lt, Int32.toInt_zero]
    omega
  refine ⟨.contract "string_charat" (.charIndex i a.length), rfl, ?_⟩
  rw [stringCharAt, bind_of_ok (stringArg_eq rfl hp), bind_of_ok (intArg_eq rfl), if_pos hout]
  rfl

theorem stringSub_givesString (hs : s.heap.Unlimited) (hp : stringAt p s.heap = .ok a)
    {i j : Int32} (hi : 0 ≤ i.toInt) (hij : i.toInt ≤ j.toInt) (hj : j.toInt ≤ a.length) :
    GivesString (stringSub [.ptr p, .int i, .int j]) s
      (a.extract i.toInt.toNat j.toInt.toNat) := by
  have hin : ¬(i < 0 ∨ j < i ∨ a.length < j.toInt) := by
    rw [Int32.lt_iff_toInt_lt, Int32.lt_iff_toInt_lt, Int32.toInt_zero]
    omega
  have hcut : cut a i.toInt.toNat j.toInt.toNat =
      .ok (a.extract i.toInt.toNat j.toInt.toNat) := by
    rw [cut, if_pos (by omega), List.extract_eq_take_drop]
  have hnul : 0 ∉ a.extract i.toInt.toNat j.toInt.toNat := by
    rw [List.extract_eq_take_drop]
    exact fun h => notMem_of_stringAt hp (List.mem_of_mem_drop (List.mem_of_mem_take h))
  obtain ⟨r, t, hr, hread⟩ := givesString_of_notMem hs hnul
  refine ⟨r, t, ?_, hread⟩
  rw [stringSub, bind_of_ok (stringArg_eq rfl hp), bind_of_ok (intArg_eq rfl),
    bind_of_ok (intArg_eq rfl), if_neg hin, hcut]
  exact hr

theorem stringSub_blames (hp : stringAt p s.heap = .ok a) {i j : Int32}
    (hij : ¬(0 ≤ i.toInt ∧ i.toInt ≤ j.toInt ∧ j.toInt ≤ a.length)) :
    Blames (stringSub [.ptr p, .int i, .int j]) s := by
  have hout : i < 0 ∨ j < i ∨ a.length < j.toInt := by
    rw [Int32.lt_iff_toInt_lt, Int32.lt_iff_toInt_lt, Int32.toInt_zero]
    omega
  refine ⟨.contract "string_sub" (.range i j a.length), rfl, ?_⟩
  rw [stringSub, bind_of_ok (stringArg_eq rfl hp), bind_of_ok (intArg_eq rfl),
    bind_of_ok (intArg_eq rfl), if_pos hout]
  rfl

section

variable (hp : stringAt p s.heap = .ok a) (hq : stringAt q s.heap = .ok b)
include hp hq

theorem stringJoin_givesString (hs : s.heap.Unlimited) :
    GivesString (stringJoin [.ptr p, .ptr q]) s (a ++ b) := by
  have hnul : 0 ∉ a ++ b := by
    rw [List.mem_append, not_or]
    exact ⟨notMem_of_stringAt hp, notMem_of_stringAt hq⟩
  obtain ⟨r, t, hr, hread⟩ := givesString_of_notMem hs hnul
  refine ⟨r, t, ?_, hread⟩
  rw [stringJoin, bind_of_ok (stringArg_eq rfl hp), bind_of_ok (stringArg_eq rfl hq), hr]

theorem stringEqual_eq : stringEqual [.ptr p, .ptr q] s = .ok (.ofBool (a == b)) s := by
  rw [stringEqual, bind_of_ok (stringArg_eq rfl hp), bind_of_ok (stringArg_eq rfl hq)]
  rfl

theorem stringCompare_eq : stringCompare [.ptr p, .ptr q] s = .ok (.int (order a b)) s := by
  rw [stringCompare, bind_of_ok (stringArg_eq rfl hp), bind_of_ok (stringArg_eq rfl hq),
    compareBytes_eq_order]
  rfl

end

/-! ## Calls one after another -/

/-- A function of the table is called on `s` and leaves `t`, whether it returns or fails. -/
def Called (s t : Host) : Prop :=
  ∃ n ∈ table, ∃ args, final (n.call args) s = t

theorem Called.evolves (h : Called s t) : Heap.Evolves s.heap t.heap := by
  obtain ⟨n, hn, args, rfl⟩ := h
  exact (tame_of_mem_table Heap.allocationsWithin_evolves hn args).rel_final s

/-- A function that is found by its name is one of the table. -/
theorem called_of_find? {name : String} {n : Native} (hn : find? name = some n) (args : List Cell)
    (s : Host) : Called s (final (call name args) s) := by
  refine ⟨n, Array.mem_of_find?_eq_some hn, args, ?_⟩
  rw [call, hn]

theorem Called.extend (h : Called s t) (hs : s.heap.Unlimited) : s.heap.Extends t.heap := by
  obtain ⟨n, hn, args, rfl⟩ := h
  exact (leavesMemory_of_mem_table hs.reached.placed hs.size hn args).extend s.console

theorem evolves_of_calls (h : Relation.ReflTransGen Called s t) : Heap.Evolves s.heap t.heap := by
  induction h with
  | refl => exact refl s.heap
  | tail _ hlast ih => exact IsTrans.trans _ _ _ ih hlast.evolves

/-- Calls only add to a heap, which stays without a limit. -/
theorem extend_of_calls (h : Relation.ReflTransGen Called s t) (hs : s.heap.Unlimited)
    (ht : t.heap.size < 2 ^ 63) : t.heap.Unlimited ∧ s.heap.Extends t.heap := by
  induction h with
  | refl => exact ⟨hs, refl s.heap⟩
  | tail _ hlast ih =>
    have hevolves := hlast.evolves
    obtain ⟨hu, hsu⟩ := ih (Nat.lt_of_le_of_lt hevolves.size_le ht)
    have hut := hlast.extend hu
    refine ⟨⟨hu.reached.evolves hevolves, hut.limit.trans_le hu.limit, ht⟩, ?_⟩
    exact IsTrans.trans _ _ _ hsu hut

/-- A call that returned has only added to the heap. -/
theorem extend_of_ok {name : String} {n : Native} {args : List Cell} {v : Cell}
    (hn : find? name = some n) (hv : call name args s = .ok v t) (hs : s.heap.Unlimited)
    (ht : t.heap.size < 2 ^ 63) : t.heap.Unlimited ∧ s.heap.Extends t.heap := by
  have hcalled := called_of_find? hn args s
  rw [final, hv] at hcalled
  exact extend_of_calls (.single hcalled) hs ht

/-! ## The laws -/

/-- The string functions do to the strings `a` at `p` and `b` at `q` what they are to do to
    byte strings. -/
structure Bytewise (s : Host) (p q : Addr) (a b : Bytes) : Prop where
  length : a.length < 2 ^ 31 → ∃ n : Int32, n.toInt = a.length ∧
    call "string_length" [.ptr p] s = .ok (.int n) s
  charAt : ∀ i : Int32, if 0 ≤ i.toInt ∧ i.toInt < a.length then
      ∃ x, a[i.toInt.toNat]? = some x ∧
        call "string_charat" [.ptr p, .int i] s = .ok (.int (Int32.ofNat x.toNat)) s
    else Blames (call "string_charat" [.ptr p, .int i]) s
  sub : ∀ i j : Int32, if 0 ≤ i.toInt ∧ i.toInt ≤ j.toInt ∧ j.toInt ≤ a.length then
      GivesString (call "string_sub" [.ptr p, .int i, .int j]) s
        (a.extract i.toInt.toNat j.toInt.toNat)
    else Blames (call "string_sub" [.ptr p, .int i, .int j]) s
  join : GivesString (call "string_join" [.ptr p, .ptr q]) s (a ++ b)
  equal : call "string_equal" [.ptr p, .ptr q] s = .ok (.ofBool (a == b)) s
  compare : call "string_compare" [.ptr p, .ptr q] s = .ok (.int (order a b)) s

theorem bytewise (hs : s.heap.Unlimited) (hp : stringAt p s.heap = .ok a)
    (hq : stringAt q s.heap = .ok b) : Bytewise s p q a b where
  length h := ⟨_, Int32.toInt_ofNat_of_lt h, stringLength_eq hp⟩
  charAt i := by
    split
    · exact stringCharAt_eq hp (And.left ‹_›) (And.right ‹_›)
    · exact stringCharAt_blames hp ‹_›
  sub i j := by
    split
    · rename_i h
      exact stringSub_givesString hs hp h.1 h.2.1 h.2.2
    · exact stringSub_blames hp ‹_›
  join := stringJoin_givesString hp hq hs
  equal := stringEqual_eq hp hq
  compare := stringCompare_eq hp hq

/-- The two parts of a joined string. -/
theorem stringSub_of_join (ht : t.heap.Unlimited) (hr : stringAt r t.heap = .ok (a ++ b))
    {i : Int32} (hi : i.toInt = a.length) :
    GivesString (stringSub [.ptr r, .int 0, .int i]) t a ∧
    ∀ j : Int32, j.toInt = a.length + b.length →
      GivesString (stringSub [.ptr r, .int i, .int j]) t b := by
  have hlength : (a ++ b).length = a.length + b.length := List.length_append
  have hzero : (0 : Int32).toInt = 0 := Int32.toInt_zero
  constructor
  · have hsub := stringSub_givesString ht hr (i := 0) (j := i) (by omega) (by omega) (by omega)
    have hfront : (a ++ b).extract (0 : Int32).toInt.toNat i.toInt.toNat = a := by
      rw [hzero, hi, List.extract_eq_take_drop]
      simp
    rwa [hfront] at hsub
  · intro j hj
    have hsub := stringSub_givesString ht hr (i := i) (j := j) (by omega) (by omega) (by omega)
    have hback : (a ++ b).extract i.toInt.toNat j.toInt.toNat = b := by
      have hj' : j.toInt.toNat - a.length = b.length := by omega
      rw [hi, Int.toNat_natCast, List.extract_eq_take_drop, List.drop_left, hj', List.take_length]
    rwa [hback] at hsub

/-- The string functions implement byte strings. A heap without a limit has the string `a`
    at `p` and the string `b` at `q`, where the null pointer stands for the empty string. The
    functions give the length of `a`, the byte at any index inside it, and any part of it
    between two indices in order and inside; for other indices the call fails, by the fault
    of the user. They join `a` and `b`, tell whether they are equal, and give their place in
    the lexicographic order of bytes, which is 0 just for equal strings, and by which
    strings are ordered: it is antisymmetric and transitive. Whatever functions are called, a
    string that was there at any time is there, the same, after all later calls. So the two
    parts of a joined string are those it was joined from. -/
theorem strings_bytewise (hs : s.heap.Unlimited) (hp : stringAt p s.heap = .ok a)
    (hq : stringAt q s.heap = .ok b) :
    Bytewise s p q a b ∧
    (call "string_equal" [.ptr p, .ptr q] s = .ok (.int 1) s ↔ a = b) ∧
    (call "string_compare" [.ptr p, .ptr q] s = .ok (.int 0) s ↔ a = b) ∧
    (∀ m n, call "string_compare" [.ptr p, .ptr q] s = .ok (.int m) s →
      call "string_compare" [.ptr q, .ptr p] s = .ok (.int n) s → n = -m) ∧
    (∀ r c, stringAt r s.heap = .ok c → ∀ l m n,
      call "string_compare" [.ptr p, .ptr q] s = .ok (.int l) s →
      call "string_compare" [.ptr q, .ptr r] s = .ok (.int m) s →
      call "string_compare" [.ptr p, .ptr r] s = .ok (.int n) s →
      l ≤ 0 → m ≤ 0 → n ≤ 0 ∧ (n = 0 → l = 0 ∧ m = 0)) ∧
    (∀ u t, Relation.ReflTransGen Called s u → Relation.ReflTransGen Called u t →
      t.heap.size < 2 ^ 63 → t.heap.Unlimited ∧
        ∀ r c, stringAt r u.heap = .ok c → stringAt r t.heap = .ok c) ∧
    ∀ r t, call "string_join" [.ptr p, .ptr q] s = .ok (.ptr r) t → t.heap.size < 2 ^ 63 →
      ∀ i : Int32, i.toInt = a.length →
        GivesString (call "string_sub" [.ptr r, .int 0, .int i]) t a ∧
        ∀ j : Int32, j.toInt = a.length + b.length →
          GivesString (call "string_sub" [.ptr r, .int i, .int j]) t b := by
  have hbytes := bytewise hs hp hq
  have hcompare {p q : Addr} {a b : Bytes} (hp : stringAt p s.heap = .ok a)
      (hq : stringAt q s.heap = .ok b) {n : Int32}
      (h : call "string_compare" [.ptr p, .ptr q] s = .ok (.int n) s) : n = order a b := by
    rw [(bytewise hs hp hq).compare] at h
    cases h
    rfl
  refine ⟨hbytes, ?_, ?_, ?_, ?_, ?_, ?_⟩
  · rw [hbytes.equal]
    simp [Cell.ofBool]
  · rw [hbytes.compare, ← order_eq_zero_iff]
    simp
  · intro m n hm hn
    rw [hcompare hp hq hm, hcompare hq hp hn]
    exact order_swap a b
  · intro r c hr l m n hl hm hn
    rw [hcompare hp hq hl, hcompare hq hr hm, hcompare hp hr hn]
    exact order_trans
  · intro u t hsu hut ht
    have hle : u.heap.size ≤ t.heap.size := (evolves_of_calls hut).size_le
    obtain ⟨hu, -⟩ := extend_of_calls hsu hs (Nat.lt_of_le_of_lt hle ht)
    obtain ⟨ht, hextends⟩ := extend_of_calls hut hu ht
    exact ⟨ht, fun r c => stringAt_of_extends hextends⟩
  · intro r t hjoin ht i hi
    obtain ⟨r', t', hjoin', hread⟩ := hbytes.join
    cases hjoin.symm.trans hjoin'
    have hcalled : Called s (final (call "string_join" [.ptr p, .ptr q]) s) :=
      called_of_find? rfl _ s
    rw [final, hjoin] at hcalled
    exact stringSub_of_join (extend_of_calls (.single hcalled) hs ht).1 hread hi

/-- A heap with two strings, of which one has a byte above 127. -/
def twoStrings : Heap :=
  final (Heap.mapReadOnly [0x61, 0xFF, 0, 0x61, 0x62, 0]) .empty

theorem unlimited_twoStrings : twoStrings.Unlimited where
  reached := .mapReadOnly _ .empty
  limit := by decide
  size := by decide +kernel

theorem strings_bytewise_twoStrings :
    twoStrings.Unlimited ∧ stringAt 8 twoStrings = .ok [0x61, 0xFF] ∧
      stringAt 11 twoStrings = .ok [0x61, 0x62] ∧
      call "string_compare" [.ptr 8, .ptr 11] ⟨twoStrings, {}⟩ = .ok (.int 1) ⟨twoStrings, {}⟩ ∧
      ∃ r t, call "string_join" [.ptr 8, .ptr 11] ⟨twoStrings, {}⟩ = .ok (.ptr r) t ∧
        stringAt r t.heap = .ok [0x61, 0xFF, 0x61, 0x62] ∧
        GivesString (call "string_sub" [.ptr r, .int 2, .int 4]) t [0x61, 0x62] := by
  have hs : twoStrings.Unlimited :=
    { reached := .mapReadOnly _ .empty, limit := by decide, size := by decide +kernel }
  have hp : stringAt 8 twoStrings = .ok [0x61, 0xFF] := by decide +kernel
  have hq : stringAt 11 twoStrings = .ok [0x61, 0x62] := by decide +kernel
  obtain ⟨hbytes, -, -, -, -, -, hsplit⟩ :=
    strings_bytewise (s := ⟨twoStrings, {}⟩) hs hp hq
  obtain ⟨r, t, hjoin, hread⟩ := hbytes.join
  have ht : (final (call "string_join" [.ptr 8, .ptr 11]) ⟨twoStrings, {}⟩).heap.size < 2 ^ 63 := by
    decide +kernel
  rw [final, hjoin] at ht
  exact ⟨hs, hp, hq, hbytes.compare, r, t, hjoin, hread,
    (hsplit r t hjoin ht 2 (by decide)).2 4 (by decide)⟩

end Library

end CZero
