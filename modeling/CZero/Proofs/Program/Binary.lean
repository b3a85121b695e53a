import CZero.Program.Binary
import Mathlib.Algebra.Group.Nat.Defs
import Mathlib.Data.List.Infix
import Mathlib.Tactic.MkIffOfInductiveProp

/-!
# The binary layout is exact

Reading accepts the written forms of programs and nothing else, so a program and its
layout determine each other. Each reader is described by what it takes off its input
(`Reads`): it gives `a` and leaves `rest` exactly if `a` is among the values that it can
give and the input is the layout of `a` with `rest` behind it. Such descriptions compose
(`Reads.bind`), since every part of a record is found again in the record.

The layout of a program shows where it ends. So nothing can be taken away from an input
that is accepted, and nothing can be added to it.
-/

namespace CZero

/-- The function with its code, an empty one if it was left out. -/
def Function.filled (f : Function) : Function :=
  { f with body := some f.code }

@[simp] theorem Function.args_filled (f : Function) : f.filled.args = f.args :=
  rfl

@[simp] theorem Function.vars_filled (f : Function) : f.filled.vars = f.vars :=
  rfl

@[simp] theorem Function.code_filled (f : Function) : f.filled.code = f.code :=
  rfl

/-- The program with all its pools, and its functions with their code, empty where they
    were left out. -/
def Program.filled (p : Program) : Program :=
  { p with
    ints := some p.intPool
    strings := some p.stringPool
    functions := some (p.functionPool.map Function.filled)
    natives := some p.nativePool }

namespace Program

@[simp] theorem intPool_filled (p : Program) : p.filled.intPool = p.intPool :=
  rfl

@[simp] theorem stringPool_filled (p : Program) : p.filled.stringPool = p.stringPool :=
  rfl

@[simp] theorem functionPool_filled (p : Program) :
    p.filled.functionPool = p.functionPool.map Function.filled :=
  rfl

@[simp] theorem nativePool_filled (p : Program) : p.filled.nativePool = p.nativePool :=
  rfl

theorem wellFormed_filled {p : Program} : p.filled.WellFormed ↔ p.WellFormed := by
  simp [WellFormed]

theorem map_filled_eq_iff {fs : Array Function} :
    fs.map Function.filled = fs ↔ ∀ f ∈ fs, f.filled = f := by
  conv_lhs => rhs; rw [← Array.map_id fs]
  rw [Array.map_inj_left]
  rfl

/-- A program is filled if it has all its pools, and its functions have their code. -/
theorem filled_eq_self_iff {p : Program} :
    p.filled = p ↔ p = { p with
        ints := some p.intPool
        strings := some p.stringPool
        functions := some p.functionPool
        natives := some p.nativePool } ∧
      ∀ f ∈ p.functionPool.toList, f.filled = f := by
  rcases p with ⟨version, arch, _ | ints, _ | strings, _ | functions, _ | natives⟩ <;>
    simp [filled, intPool, stringPool, functionPool, nativePool, map_filled_eq_iff]

@[simp] theorem filled_filled (p : Program) : p.filled.filled = p.filled := by
  refine filled_eq_self_iff.2 ⟨rfl, fun f hf => ?_⟩
  rw [functionPool_filled, Array.toList_map] at hf
  obtain ⟨g, -, rfl⟩ := List.mem_map.1 hf
  rfl

theorem fewVars?_eq_none_iff {i : Nat} {fs : List Function} :
    fewVars? i fs = none ↔ ∀ f ∈ fs, f.args ≤ f.vars := by
  induction fs generalizing i with
  | nil => simp [fewVars?]
  | cons f fs ih =>
    rw [fewVars?, List.forall_mem_cons]
    split
    next hlt => simp [UInt16.not_le.2 hlt]
    next hle => simp [ih, UInt16.not_lt.1 hle]

theorem defect?_eq_none_iff {p : Program} : p.defect? = none ↔ p.WellFormed := by
  rw [defect?, WellFormed, ← fewVars?_eq_none_iff (i := 0)]
  by_cases h : p.functionPool = #[] <;> simp [h]

end Program

namespace Binary

/-! ## Numbers -/

theorem length_highBytes (w n : Nat) : (highBytes w n).length = w := by
  induction w generalizing n with
  | zero => rfl
  | succ w ih => rw [highBytes, List.length_append, ih, List.length_singleton]

theorem ofHighBytes_concat (bs : Bytes) (b : UInt8) :
    ofHighBytes (bs ++ [b]) = ofHighBytes bs * 256 + b.toNat := by
  rw [ofHighBytes, List.foldl_append]
  rfl

/-- A number that has room in `w` bytes is read back from them. -/
theorem ofHighBytes_highBytes {w n : Nat} (h : n < 256 ^ w) : ofHighBytes (highBytes w n) = n := by
  induction w generalizing n with
  | zero => simp_all [highBytes, ofHighBytes]
  | succ w ih =>
    have hdiv : n / 256 < 256 ^ w := Nat.div_lt_of_lt_mul (by rwa [← Nat.pow_succ'])
    rw [highBytes, ofHighBytes_concat, ih hdiv, UInt8.toNat_ofNat']
    omega

theorem highBytes_ofHighBytes (bs : Bytes) : highBytes bs.length (ofHighBytes bs) = bs := by
  induction bs using List.reverseRecOn with
  | nil => rfl
  | append_singleton bs b ih =>
    have hb := b.toNat_lt
    have hdiv : (ofHighBytes bs * 256 + b.toNat) / 256 = ofHighBytes bs := by omega
    have hlow : UInt8.ofNat (ofHighBytes bs * 256 + b.toNat) = b := by
      rw [UInt8.ofNat_add, UInt8.ofNat_mul, UInt8.ofNat_toNat]
      simp
    rw [List.length_append, List.length_singleton, highBytes, ofHighBytes_concat, hdiv, ih, hlow]

theorem ofHighBytes_lt (bs : Bytes) : ofHighBytes bs < 256 ^ bs.length := by
  induction bs using List.reverseRecOn with
  | nil => simp [ofHighBytes]
  | append_singleton bs b ih =>
    have hb := b.toNat_lt
    rw [ofHighBytes_concat, List.length_append, List.length_singleton, Nat.pow_succ]
    omega

/-! ## Readers -/

variable {α β : Type} {bs rest : Bytes}

/-- The reader gives the values that are `Valid`, each off the inputs that start with its
    layout. -/
def Reads (x : Reader α) (Valid : α → Prop) (layout : α → Bytes) : Prop :=
  ∀ bs a rest, x bs = .ok (a, rest) ↔ Valid a ∧ bs = layout a ++ rest

theorem bind_eq_ok_iff {x : Reader α} {f : α → Reader β} {b : β} :
    (x >>= f) bs = .ok (b, rest) ↔ ∃ a mid, x bs = .ok (a, mid) ∧ f a mid = .ok (b, rest) := by
  change (x bs >>= fun p => f p.1 p.2) = _ ↔ _
  cases x bs with
  | error e => simp [bind, Except.bind]
  | ok p =>
    obtain ⟨a, mid⟩ := p
    simp [bind, Except.bind]

theorem throw_bind (e : Error) (f : α → Reader β) : (throw e >>= f) = throw e :=
  rfl

theorem guard_bind {c : Prop} [Decidable c] (e : Error) (x : Reader α) (f : α → Reader β) :
    (if c then throw e else x) >>= f = if c then throw e else x >>= f := by
  split <;> rfl

section

variable {Valid : α → Prop} {layout : α → Bytes} {x : Reader α}

theorem Reads.congr {Valid' : α → Prop} {layout' : α → Bytes} (hx : Reads x Valid layout)
    (hvalid : ∀ a, Valid a ↔ Valid' a) (hlayout : ∀ a, Valid' a → layout a = layout' a) :
    Reads x Valid' layout' := by
  intro bs a rest
  rw [hx, hvalid]
  exact and_congr_right fun ha => by rw [hlayout a ha]

theorem reads_pure (a : α) : Reads (pure a) (· = a) fun _ => [] := by
  intro bs b rest
  change Except.ok (a, bs) = .ok (b, rest) ↔ _
  simp [eq_comm]

/-- What the first reader has given must be found again in the result of both. -/
theorem Reads.bind {f : α → Reader β} {Valid' : α → β → Prop} {layout' : α → β → Bytes}
    (part : β → α) (hx : Reads x Valid layout) (hf : ∀ a, Reads (f a) (Valid' a) (layout' a))
    (hpart : ∀ a b, Valid a → Valid' a b → part b = a) :
    Reads (x >>= f) (fun b => Valid (part b) ∧ Valid' (part b) b)
      fun b => layout (part b) ++ layout' (part b) b := by
  intro bs b rest
  rw [bind_eq_ok_iff]
  constructor
  · rintro ⟨a, mid, hfirst, hsecond⟩
    obtain ⟨ha, rfl⟩ := (hx ..).1 hfirst
    obtain ⟨hb, rfl⟩ := (hf a ..).1 hsecond
    obtain rfl := hpart a b ha hb
    exact ⟨⟨ha, hb⟩, (List.append_assoc ..).symm⟩
  · rintro ⟨⟨ha, hb⟩, rfl⟩
    rw [List.append_assoc]
    exact ⟨part b, _, (hx ..).2 ⟨ha, rfl⟩, (hf _ ..).2 ⟨hb, rfl⟩⟩

theorem Reads.guard {c : Prop} [Decidable c] (e : Error) (hx : Reads x Valid layout) :
    Reads (if c then throw e else x) (fun a => ¬c ∧ Valid a) layout := by
  intro bs a rest
  split
  next hc =>
    change Except.error e = _ ↔ _
    simp [hc]
  next hc => simp [hx bs a rest, hc]

end

theorem take_reads (part : Part) (n : Nat) : Reads (take part n) (·.length = n) id := by
  intro bs front rest
  rw [take, id]
  dsimp only
  constructor
  · intro h
    split at h
    next hlt => cases h
    next hle =>
      cases h
      have hlen := List.length_take_le n bs
      exact ⟨by omega, (List.take_append_drop n bs).symm⟩
  · rintro ⟨rfl, rfl⟩
    rw [List.take_left, List.drop_left, if_neg (Nat.lt_irrefl _)]

/-- The word of two bytes. -/
theorem highBytes_word {front : Bytes} (h : front.length = 2) :
    highBytes 2 (UInt16.ofNat (ofHighBytes front)).toNat = front := by
  have hlt := ofHighBytes_lt front
  rw [h] at hlt
  rw [UInt16.toNat_ofNat_of_lt' hlt, ← h, highBytes_ofHighBytes]

theorem ofHighBytes_word (w : UInt16) :
    UInt16.ofNat (ofHighBytes (highBytes 2 w.toNat)) = w := by
  rw [ofHighBytes_highBytes w.toNat_lt, UInt16.ofNat_toNat]

theorem word_reads (part : Part) : Reads (word part) (fun _ => True) (highBytes 2 ·.toNat) := by
  refine ((take_reads part 2).bind (highBytes 2 ·.toNat) (fun bs => reads_pure _) ?_).congr ?_ ?_
  · rintro front w hfront rfl
    exact highBytes_word hfront
  · intro w
    simp only [length_highBytes, ofHighBytes_word, and_self]
  · intro w _
    exact List.append_nil _

/-- Things that are read one after another lie one after another. -/
theorem collect_eq_ok_iff {item : Nat → Reader α} {Valid : α → Prop} {layout : α → Bytes}
    (hitem : ∀ i, Reads (item i) Valid layout) {acc as : Array α} {i n : Nat} :
    collect item acc i n bs = .ok (as, rest) ↔ ∃ new : List α, as = acc ++ new ∧ new.length = n ∧
      (∀ a ∈ new, Valid a) ∧ bs = new.flatMap layout ++ rest := by
  induction n generalizing acc i bs with
  | zero =>
    rw [collect, reads_pure acc bs as rest]
    simp
  | succ n ih =>
    rw [collect, bind_eq_ok_iff]
    constructor
    · rintro ⟨a, mid, hfirst, hothers⟩
      obtain ⟨ha, rfl⟩ := (hitem i ..).1 hfirst
      obtain ⟨new, rfl, rfl, hnew, rfl⟩ := ih.1 hothers
      exact ⟨a :: new, by simp, rfl, List.forall_mem_cons.2 ⟨ha, hnew⟩, by simp⟩
    · rintro ⟨_ | ⟨a, new⟩, rfl, hlen, hvalid, rfl⟩
      · cases hlen
      obtain ⟨ha, hnew⟩ := List.forall_mem_cons.1 hvalid
      exact ⟨a, _, (hitem i ..).2 ⟨ha, List.append_assoc ..⟩,
        ih.2 ⟨new, by simp, Nat.succ.inj hlen, hnew, rfl⟩⟩

theorem collect_reads {item : Nat → Reader α} {Valid : α → Prop} {layout : α → Bytes}
    (hitem : ∀ i, Reads (item i) Valid layout) (n : Nat) :
    Reads (collect item #[] 0 n) (fun as => as.size = n ∧ ∀ a ∈ as.toList, Valid a)
      (·.toList.flatMap layout) := by
  intro bs as rest
  rw [collect_eq_ok_iff hitem]
  constructor
  · rintro ⟨new, rfl, rfl, hvalid, rfl⟩
    simpa using hvalid
  · rintro ⟨⟨hsize, hvalid⟩, hbs⟩
    exact ⟨as.toList, by simp, hsize, hvalid, hbs⟩

/-! ## The parts of a program -/

/-- A length has room in a word if it is at most 65535. -/
theorem eq_word_iff {n : Nat} : n = (UInt16.ofNat n).toNat ↔ n ≤ 65535 := by
  rw [UInt16.toNat_ofNat']
  omega

theorem function_reads (i : Nat) :
    Reads (function i) (fun f => f.filled = f ∧ f.code.size ≤ 65535) writeFunction := by
  refine Reads.congr (.bind Function.args (word_reads _) (fun args =>
    .bind Function.vars (word_reads _) (fun vars =>
    .bind (fun f => UInt16.ofNat f.code.size) (word_reads _) (fun length =>
    .bind (·.code.toList) (take_reads _ _) (fun code => reads_pure _) ?_) ?_) ?_) ?_) ?_ ?_
  -- The length is found again as that of the code.
  · rintro code f - rfl
    rfl
  · rintro length f - ⟨hsize, -⟩
    rw [← Array.length_toList, hsize, UInt16.ofNat_toNat]
  · rintro vars f - ⟨-, -, hf⟩
    rw [hf]
  · rintro args f - ⟨-, -, -, hf⟩
    rw [hf]
  · intro f
    simp only [true_and, Array.length_toList, Array.toArray_toList, eq_word_iff]
    rw [and_comm, eq_comm]
    rfl
  · rintro f ⟨-, hsize⟩
    rw [← eq_word_iff.2 hsize]
    simp [writeFunction]

theorem native_reads (i : Nat) : Reads (native i) (fun _ => True) writeNative := by
  refine Reads.congr (.bind NativeRef.args (word_reads _) (fun args =>
    .bind NativeRef.slot (word_reads _) (fun slot => reads_pure _) ?_) ?_) ?_ ?_
  · rintro slot n - rfl
    rfl
  · rintro args n - ⟨-, hn⟩
    rw [hn]
  · intro n
    simp
  · intro n _
    simp [writeNative]

/-- The layout of integer constants. -/
def writeInts (ns : Array Int32) : Bytes :=
  ns.toList.flatMap fun n => highBytes 4 n.toUInt32.toNat

theorem intsOf_append (acc : Array Int32) (n : Int32) (bs : Bytes) :
    intsOf acc (highBytes 4 n.toUInt32.toNat ++ bs) = intsOf (acc.push n) bs := by
  have hn : (UInt32.ofNat (ofHighBytes (highBytes 4 n.toUInt32.toNat))).toInt32 = n := by
    rw [ofHighBytes_highBytes n.toUInt32.toNat_lt, UInt32.ofNat_toNat, Int32.toInt32_toUInt32]
  -- Integers are taken four bytes at a time, so the four have to be seen.
  obtain ⟨a, b, c, d, hbytes⟩ := List.length_eq_four.1 (length_highBytes 4 n.toUInt32.toNat)
  rw [hbytes] at hn ⊢
  simp only [List.cons_append, List.nil_append, intsOf, hn]

/-- Integers are read back from their layout. -/
theorem intsOf_flatMap (acc : Array Int32) (ns : List Int32) :
    intsOf acc (ns.flatMap fun n => highBytes 4 n.toUInt32.toNat) = acc ++ ns := by
  induction ns generalizing acc with
  | nil => rfl
  | cons n ns ih =>
    rw [List.flatMap_cons, intsOf_append, ih]
    simp

theorem length_writeInts (ns : Array Int32) : (writeInts ns).length = 4 * ns.size := by
  rw [writeInts, List.length_flatMap]
  simp [length_highBytes, Nat.mul_comm]

/-- Any bytes are the layout of integers, if their number is right. -/
theorem exists_flatMap_eq {n : Nat} {bs : Bytes} (h : bs.length = 4 * n) :
    ∃ ns : List Int32, ns.length = n ∧ bs = ns.flatMap fun n => highBytes 4 n.toUInt32.toNat := by
  induction n generalizing bs with
  | zero => exact ⟨[], rfl, List.eq_nil_of_length_eq_zero h⟩
  | succ n ih =>
    have hfront : (bs.take 4).length = 4 := by rw [List.length_take]; omega
    have hlt := ofHighBytes_lt (bs.take 4)
    rw [hfront] at hlt
    have hback : (bs.drop 4).length = 4 * n := by rw [List.length_drop]; omega
    obtain ⟨ns, hlen, hns⟩ := ih hback
    refine ⟨(UInt32.ofNat (ofHighBytes (bs.take 4))).toInt32 :: ns, ?_, ?_⟩
    · rw [List.length_cons, hlen]
    · have hbytes := highBytes_ofHighBytes (bs.take 4)
      rw [hfront] at hbytes
      rw [List.flatMap_cons, ← hns, UInt32.toUInt32_toInt32, UInt32.toNat_ofNat_of_lt' hlt, hbytes,
        List.take_append_drop]

theorem ints_reads (part : Part) (n : Nat) :
    Reads (take part (4 * n) >>= fun front => pure (intsOf #[] front)) (·.size = n) writeInts := by
  refine Reads.congr (.bind writeInts (take_reads _ _) (fun front => reads_pure _) ?_) ?_ ?_
  · rintro front ns hlen rfl
    obtain ⟨ns, -, rfl⟩ := exists_flatMap_eq hlen
    rw [intsOf_flatMap, writeInts]
    simp
  · intro ns
    rw [length_writeInts, writeInts, intsOf_flatMap, Nat.mul_left_cancel_iff (by decide)]
    simp
  · intro ns _
    exact List.append_nil _

/-! ## Pools -/

/-- Something that stands behind its length. -/
theorem counted_reads {item : UInt16 → Reader α} {Valid : α → Prop} {layout : α → Bytes}
    (part : Part) (size : α → Nat)
    (hitem : ∀ n, Reads (item n) (fun a => size a = n.toNat ∧ Valid a) layout) :
    Reads (word part >>= item) (fun a => size a ≤ 65535 ∧ Valid a)
      fun a => highBytes 2 (size a) ++ layout a := by
  refine Reads.congr (.bind (fun a => UInt16.ofNat (size a)) (word_reads part) hitem ?_) ?_ ?_
  · rintro n a - ⟨hsize, -⟩
    rw [hsize, UInt16.ofNat_toNat]
  · intro a
    rw [true_and, eq_word_iff]
  · rintro a ⟨hsize, -⟩
    rw [← eq_word_iff.2 hsize]

/-- Take what comes before the pools: the version and the architecture. -/
def header : Reader (UInt16 × UInt16) := do
  let n := ofHighBytes (← take .magic 4)
  if n ≠ magic then throw (.magic n)
  let w ← word .version
  if w &&& 1 ≠ arch64 then throw .arch
  return (w >>> 1, w &&& 1)

/-- Take the integer constants. -/
def intPool : Reader (Array Int32) := do
  let count ← word .intCount
  return intsOf #[] (← take .ints (4 * count.toNat))

/-- Take the bytes of the string constants. -/
def stringPool : Reader (Array UInt8) := do
  let count ← word .stringCount
  return (← take .strings count.toNat).toArray

/-- Take the functions, of which there must be one. -/
def functionPool : Reader (Array Function) := do
  let count ← word .functionCount
  if count = 0 then throw (.defect .noMain)
  collect function #[] 0 count.toNat

/-- Take the native functions. -/
def nativePool : Reader (Array NativeRef) := do
  let count ← word .nativeCount
  collect native #[] 0 count.toNat

/-- A program is a header and four pools. -/
theorem program_eq : program = do
    let head ← header
    let ints ← intPool
    let strings ← stringPool
    let functions ← functionPool
    let natives ← nativePool
    return { version := head.1, arch := head.2, ints := some ints, strings := some strings,
             functions := some functions, natives := some natives } := by
  simp only [program, header, intPool, stringPool, functionPool, nativePool, throw_bind, bind_assoc,
    pure_bind, guard_bind]

/-- The lowest bit of the version word is the architecture. -/
theorem shift_and_eq_iff {w version arch : UInt16} :
    (w >>> 1 = version ∧ w &&& 1 = arch) ↔
      version.toNat < 2 ^ 15 ∧ arch.toNat < 2 ∧ w.toNat = version.toNat * 2 + arch.toNat := by
  have hw := w.toNat_lt
  have hshift : (w >>> 1).toNat = w.toNat / 2 := by simp [Nat.shiftRight_eq_div_pow]
  have hand : (w &&& 1).toNat = w.toNat % 2 := by simp
  rw [← UInt16.toNat_inj, ← UInt16.toNat_inj, hshift, hand]
  omega

/-- The word that holds a version and an architecture. -/
def versionWord (head : UInt16 × UInt16) : UInt16 :=
  UInt16.ofNat (head.1.toNat * 2 + head.2.toNat)

theorem arch64_lt : arch64.toNat < 2 := by
  decide

theorem versionWord_toNat (head : UInt16 × UInt16) (hversion : head.1.toNat < 2 ^ 15)
    (harch : head.2 = arch64) : (versionWord head).toNat = head.1.toNat * 2 + head.2.toNat := by
  refine (eq_word_iff.2 ?_).symm
  rw [harch, arch64, UInt16.toNat_one]
  omega

theorem header_reads :
    Reads header (fun head => head.1.toNat < 2 ^ 15 ∧ head.2 = arch64)
      fun head => highBytes 4 magic ++ highBytes 2 (head.1.toNat * 2 + head.2.toNat) := by
  simp only [header, throw_bind]
  refine Reads.congr (.bind (fun _ => highBytes 4 magic) (take_reads _ _) (fun front => .guard _ <|
    .bind versionWord (word_reads _) (fun w => .guard _ <| reads_pure _) ?_) ?_) ?_ ?_
  · rintro w _ - ⟨-, rfl⟩
    obtain ⟨-, -, hw⟩ := shift_and_eq_iff.1 ⟨Eq.refl (w >>> 1), Eq.refl (w &&& 1)⟩
    rw [versionWord, ← hw, UInt16.ofNat_toNat]
  · rintro front _ hlen ⟨hmagic, -⟩
    rw [← not_not.1 hmagic, ← hlen, highBytes_ofHighBytes]
  · rintro ⟨version, arch⟩
    -- The guards are left, on the magic number and on the architecture.
    have hmagic : ofHighBytes (highBytes 4 magic) = magic := ofHighBytes_highBytes (by decide)
    simp only [length_highBytes, hmagic, ne_eq, not_true, not_false_iff, true_and, not_not,
      Prod.mk.injEq]
    constructor
    · rintro ⟨hand, hversion, harch⟩
      exact ⟨(shift_and_eq_iff.1 ⟨hversion.symm, rfl⟩).1, harch.trans hand⟩
    · rintro ⟨hversion, rfl⟩
      have hword := versionWord_toNat (version, arch64) hversion rfl
      obtain ⟨hshift, hand⟩ := shift_and_eq_iff.2 ⟨hversion, arch64_lt, hword⟩
      exact ⟨hand, hshift.symm, hand.symm⟩
  · rintro head ⟨hversion, harch⟩
    rw [versionWord_toNat head hversion harch, List.append_nil]
    rfl

theorem intPool_reads :
    Reads intPool (·.size ≤ 65535) fun ns => highBytes 2 ns.size ++ writeInts ns := by
  have hints (n : UInt16) :
      Reads (take .ints (4 * n.toNat) >>= fun front => pure (intsOf #[] front))
        (fun ns => ns.size = n.toNat ∧ True) writeInts :=
    (ints_reads .ints n.toNat).congr (by simp) fun _ _ => rfl
  exact (counted_reads .intCount Array.size hints).congr (by simp) fun _ _ => rfl

theorem stringPool_reads :
    Reads stringPool (·.size ≤ 65535) fun bs => highBytes 2 bs.size ++ bs.toList := by
  have hbytes (n : UInt16) : Reads (take .strings n.toNat >>= fun front => pure front.toArray)
      (fun bs => bs.size = n.toNat ∧ True) Array.toList := by
    refine Reads.congr (.bind Array.toList (take_reads _ _) (fun front => reads_pure _) ?_) ?_ ?_
    · rintro front _ - rfl
      rfl
    · simp
    · simp
  exact (counted_reads .stringCount Array.size hbytes).congr (by simp) fun _ _ => rfl

theorem functionPool_reads :
    Reads functionPool (fun fs => fs.size ≤ 65535 ∧ fs ≠ #[] ∧
        ∀ f ∈ fs.toList, f.filled = f ∧ f.code.size ≤ 65535)
      fun fs => highBytes 2 fs.size ++ fs.toList.flatMap writeFunction := by
  simp only [functionPool, throw_bind]
  refine counted_reads _ Array.size fun n => ?_
  refine ((collect_reads function_reads _).guard _).congr (fun fs => ?_) fun _ _ => rfl
  rw [and_left_comm]
  refine and_congr_right fun hsize => and_congr_left fun _ => not_congr ?_
  rw [← UInt16.toNat_inj, ← hsize, ← Array.size_eq_zero_iff]
  rfl

theorem nativePool_reads :
    Reads nativePool (·.size ≤ 65535)
      fun ns => highBytes 2 ns.size ++ ns.toList.flatMap writeNative := by
  refine (counted_reads _ Array.size fun n => collect_reads native_reads _).congr (by simp)
    fun _ _ => rfl

/-- What the layout has room for. -/
@[mk_iff]
structure Carries (p : Program) : Prop where
  arch : p.arch = arch64
  version : p.version.toNat < 2 ^ 15
  ints : p.intPool.size ≤ 65535
  strings : p.stringPool.size ≤ 65535
  functions : p.functionPool.size ≤ 65535
  code : ∀ f ∈ p.functionPool.toList, f.code.size ≤ 65535
  natives : p.nativePool.size ≤ 65535

theorem program_reads :
    Reads program (fun p => p.filled = p ∧ Carries p ∧ p.functionPool ≠ #[]) write := by
  rw [program_eq]
  refine Reads.congr (.bind (fun p => (p.version, p.arch)) header_reads (fun head =>
    .bind Program.intPool intPool_reads (fun ints =>
    .bind Program.stringPool stringPool_reads (fun strings =>
    .bind Program.functionPool functionPool_reads (fun functions =>
    .bind Program.nativePool nativePool_reads (fun natives => reads_pure _)
      ?_) ?_) ?_) ?_) ?_) ?_ ?_
  -- Every part that was read is found again in the program.
  · rintro natives p - rfl
    rfl
  · rintro functions p - ⟨-, hp⟩
    rw [hp]
    rfl
  · rintro strings p - ⟨-, -, hp⟩
    rw [hp]
    rfl
  · rintro ints p - ⟨-, -, -, hp⟩
    rw [hp]
    rfl
  · rintro head p - ⟨-, -, -, -, hp⟩
    rw [hp]
  · intro p
    rw [Program.filled_eq_self_iff]
    constructor
    · rintro ⟨⟨hversion, harch⟩, hints, hstrings, ⟨hsize, hmain, hfunctions⟩, hnatives, hp⟩
      exact ⟨⟨hp, fun f hf => (hfunctions f hf).1⟩, ⟨harch, hversion, hints, hstrings, hsize,
        fun f hf => (hfunctions f hf).2, hnatives⟩, hmain⟩
    · rintro ⟨⟨hp, hfilled⟩, ⟨harch, hversion, hints, hstrings, hsize, hcode, hnatives⟩, hmain⟩
      exact ⟨⟨hversion, harch⟩, hints, hstrings,
        ⟨hsize, hmain, fun f hf => ⟨hfilled f hf, hcode f hf⟩⟩, hnatives, hp⟩
  · intro p _
    simp only [write, writeInts, List.append_assoc, List.append_nil]

/-! ## Whole programs -/

theorem read_of_program {d : Bytes} {p : Program} (h : program d = .ok (p, rest)) :
    read d = if rest ≠ [] then .error (.trailing rest.length) else
      match p.defect? with
      | some e => .error (.defect e)
      | none => .ok p := by
  rw [read, h]
  rfl

/-- Reading accepts the layouts of well-formed programs and nothing else. -/
theorem read_eq_ok_iff {d : Bytes} {p : Program} :
    read d = .ok p ↔ p.filled = p ∧ d = write p ∧ Carries p ∧ p.WellFormed := by
  constructor
  · intro h
    cases hprogram : program d with
    | error e =>
      rw [read, hprogram] at h
      cases h
    | ok r =>
      obtain ⟨q, rest⟩ := r
      rw [read_of_program hprogram] at h
      obtain ⟨⟨hfilled, hcarries, -⟩, rfl⟩ := (program_reads ..).1 hprogram
      split at h
      next hrest => cases h
      next hrest =>
        obtain rfl := not_not.1 hrest
        split at h
        next e hdefect => cases h
        next hdefect =>
          cases h
          exact ⟨hfilled, List.append_nil _, hcarries, Program.defect?_eq_none_iff.1 hdefect⟩
  · rintro ⟨hfilled, rfl, hcarries, hwell⟩
    have hprogram : program (write p) = .ok (p, []) :=
      (program_reads ..).2 ⟨⟨hfilled, hcarries, hwell.1⟩, (List.append_nil _).symm⟩
    rw [read_of_program hprogram, if_neg (not_not.2 rfl), Program.defect?_eq_none_iff.2 hwell]

/-- A layout shows where it ends: no layout is the beginning of another one. -/
theorem eq_of_read_of_isPrefix {d d' : Bytes} {p p' : Program} (h : read d = .ok p)
    (h' : read d' = .ok p') (hpre : d <+: d') : d = d' := by
  obtain ⟨rest, rfl⟩ := hpre
  obtain ⟨hfilled, rfl, hcarries, hwell⟩ := read_eq_ok_iff.1 h
  obtain ⟨hfilled', hd, hcarries', hwell'⟩ := read_eq_ok_iff.1 h'
  -- Off the longer input, the reader takes the shorter one, and it takes all of it.
  have hfront : program (write p ++ rest) = .ok (p, rest) :=
    (program_reads ..).2 ⟨⟨hfilled, hcarries, hwell.1⟩, rfl⟩
  have hall : program (write p ++ rest) = .ok (p', []) :=
    (program_reads ..).2 ⟨⟨hfilled', hcarries', hwell'.1⟩, by rw [hd, List.append_nil]⟩
  rw [hfront] at hall
  cases hall
  exact (List.append_nil _).symm

theorem write_filled (p : Program) : write p.filled = write p := by
  have hfunction (f : Function) : writeFunction f.filled = writeFunction f := rfl
  simp only [write, Program.intPool_filled, Program.stringPool_filled, Program.functionPool_filled,
    Program.nativePool_filled, Array.toList_map, List.flatMap_map, Array.size_map, hfunction]
  rfl

theorem carries_filled {p : Program} : Carries p.filled ↔ Carries p := by
  have harch : p.filled.arch = p.arch := rfl
  have hversion : p.filled.version = p.version := rfl
  simp [carries_iff, harch, hversion]

/-- The layout is exact. Reading gives the program `p`, with what it leaves out made
    empty, exactly off the layout of `p`, if `p` is well-formed and the layout has room
    for it; and a program that was read leaves nothing out. So an accepted input is
    neither the beginning nor the continuation of another one, and it is determined by
    its program. -/
theorem layout_exact :
    (∀ d p, read d = .ok p ↔ p.filled = p ∧ d = write p ∧ Carries p ∧ p.WellFormed) ∧
    (∀ d p, read d = .ok p.filled ↔ d = write p ∧ Carries p ∧ p.WellFormed) ∧
    ∀ d p, read d = .ok p →
      (∀ d', d' <+: d → d' ≠ d → ∃ e, read d' = .error e) ∧
      (∀ d', d <+: d' → d' ≠ d → ∃ e, read d' = .error e) ∧
      ∀ d', read d' = .ok p → d' = d := by
  refine ⟨fun d p => read_eq_ok_iff, fun d p => ?_, fun d p h =>
    ⟨fun d' hpre hne => ?_, fun d' hpre hne => ?_, fun d' h' => ?_⟩⟩
  · rw [read_eq_ok_iff, write_filled, carries_filled, Program.wellFormed_filled]
    exact and_iff_right p.filled_filled
  · cases h' : read d' with
    | error e => exact ⟨e, rfl⟩
    | ok p' => exact absurd (eq_of_read_of_isPrefix h' h hpre) hne
  · cases h' : read d' with
    | error e => exact ⟨e, rfl⟩
    | ok p' => exact absurd (eq_of_read_of_isPrefix h h' hpre).symm hne
  · rw [(read_eq_ok_iff.1 h).2.1, (read_eq_ok_iff.1 h').2.1]

/-- A program with something in each of its pools. -/
def sample : Program where
  version := 4
  arch := 1
  ints := some #[-1]
  strings := some #[104, 105, 0]
  functions := some #[{ args := 0, vars := 1, body := some #[0x13, 0, 0, 0xB0] }]
  natives := some #[{ args := 1, slot := 6 }]

theorem layout_exact_sample :
    read (write sample) = .ok sample ∧ (∃ e, read (write sample).dropLast = .error e) ∧
      ∃ e, read (write sample ++ [0]) = .error e := by
  obtain ⟨hexact, -, hends⟩ := layout_exact
  have hread : read (write sample) = .ok sample := by
    have hcarries : Carries sample :=
      ⟨rfl, by decide, by decide, by decide, by decide, by decide, by decide⟩
    exact (hexact ..).2 ⟨by decide +kernel, rfl, hcarries, by decide, by decide⟩
  obtain ⟨hless, hmore, -⟩ := hends (write sample) sample hread
  refine ⟨hread, hless _ (List.dropLast_prefix _) fun h => ?_, hmore _ (List.prefix_append ..) ?_⟩
  · have hlen := congrArg List.length h
    revert hlen
    decide
  · simp

end Binary

end CZero
