import CZero.Proofs.Library

/-!
# Native functions read, then build

A native function of the library works in two stages. First it reads: its arguments,
the bytes of the heap, and the console, on which it may also write. Then it gives back
a cell, or it builds one thing in the heap and gives back its address. So whatever goes
wrong before the building leaves the heap as it was, and what is built does not depend
on the bookkeeping of the heap, such as its limit.

`Reads` says the first of an action, `Builds` says both, and `builds_of_mem_table` says
it of every function of the table.
-/

namespace CZero

open CZero.Action

/-- `f` depends on the bytes of the arena alone. -/
def Heap.OfBytes {α : Type} (f : Heap → α) : Prop :=
  ∀ ⦃h k : Heap⦄, h.mem = k.mem → f h = f k

/-- It is enough to look at heaps whose bookkeeping is blank. -/
theorem Heap.ofBytes_of_blank {α : Type} {f : Heap → α} (hf : ∀ h, f h = f { mem := h.mem }) :
    OfBytes f := by
  intro h k hmem
  rw [hf h, hf k, hmem]

theorem Heap.loadString_ofBytes (p : Addr) : OfBytes (·.loadString p) :=
  ofBytes_of_blank fun _ => rfl

theorem Heap.arrayLength_ofBytes (p : Addr) : OfBytes (·.arrayLength p) :=
  ofBytes_of_blank fun _ => rfl

theorem Heap.arrayElement_ofBytes (p : Addr) (i : Int32) : OfBytes (·.arrayElement p i) :=
  ofBytes_of_blank fun _ => rfl

theorem Heap.readCharsFrom_ofBytes (p : Addr) (acc : Bytes) (i : Int32) (n : Nat) :
    OfBytes (·.readCharsFrom p acc i n) := by
  intro h k hmem
  induction n generalizing acc i with
  | zero => rfl
  | succ n ih =>
    have helement : h.elementByte p i = k.elementByte p i :=
      ofBytes_of_blank (f := (·.elementByte p i)) (fun _ => rfl) hmem
    simp only [readCharsFrom, helement, ih]

theorem Heap.readChars_ofBytes (name : String) (p : Addr) (n : Int32) :
    OfBytes (·.readChars name p n) := by
  intro h k hmem
  have helement : h.elementByte p (n - 1) = k.elementByte p (n - 1) :=
    ofBytes_of_blank (f := (·.elementByte p (n - 1))) (fun _ => rfl) hmem
  have hread (j : Nat) : h.readCharsFrom p [] 0 j = k.readCharsFrom p [] 0 j :=
    readCharsFrom_ofBytes p [] 0 j hmem
  simp only [readChars, helement, hread]

namespace Native

variable {α β : Type}

/-! ## Reading -/

/-- `x` looks at the bytes of the heap and works on the console: on heaps with the same
    bytes it ends alike, and it leaves each as it is. -/
def Reads (x : Action Host α) : Prop :=
  ∀ ⦃h k : Heap⦄ (c : Console), h.mem = k.mem →
    (∃ a d, x ⟨h, c⟩ = .ok a ⟨h, d⟩ ∧ x ⟨k, c⟩ = .ok a ⟨k, d⟩) ∨
      ∃ e d, x ⟨h, c⟩ = .error e ⟨h, d⟩ ∧ x ⟨k, c⟩ = .error e ⟨k, d⟩

theorem reads_pure (a : α) : Reads (pure a) :=
  fun _ _ c _ => .inl ⟨a, c, rfl, rfl⟩

theorem reads_ofResult (r : Except Failure α) : Reads (Action.ofResult r) := by
  intro h k c _
  cases r with
  | ok a => exact .inl ⟨a, c, rfl, rfl⟩
  | error e => exact .inr ⟨e, c, rfl, rfl⟩

theorem breach_reads (name : String) (b : Fault.Breach) : Reads (breach name b : Action Host α) :=
  reads_ofResult (.error (.fault (.contract name b)))

theorem Reads.bind {x : Action Host α} {f : α → Action Host β} (hx : Reads x)
    (hf : ∀ a, Reads (f a)) : Reads (x >>= f) := by
  intro h k c hmem
  rcases hx c hmem with ⟨a, d, hh, hk⟩ | ⟨e, d, hh, hk⟩
  · rw [bind_of_ok hh, bind_of_ok hk]
    exact hf a d hmem
  · rw [bind_of_error hh, bind_of_error hk]
    exact .inr ⟨e, d, rfl, rfl⟩

theorem Reads.ite {p : Prop} [Decidable p] {x y : Action Host α} (hx : Reads x) (hy : Reads y) :
    Reads (if p then x else y) := by
  split
  · exact hx
  · exact hy

theorem reads_ofHeap {f : Heap → Except Failure α} (hf : Heap.OfBytes f) :
    Reads (Host.ofHeap f) := by
  intro h k c hmem
  have hfk : f k = f h := (hf hmem).symm
  cases hfh : f h with
  | ok a => exact .inl ⟨a, c, by simp only [Host.ofHeap, hfh], by simp only [Host.ofHeap, hfk, hfh]⟩
  | error e =>
    exact .inr ⟨e, c, by simp only [Host.ofHeap, hfh], by simp only [Host.ofHeap, hfk, hfh]⟩

theorem reads_onConsole (x : Action Console α) : Reads (Host.onConsole x) := by
  intro h k c _
  cases hx : x c with
  | ok a d =>
    exact .inl ⟨a, d, by simp only [Host.onConsole, hx], by simp only [Host.onConsole, hx]⟩
  | error e d =>
    exact .inr ⟨e, d, by simp only [Host.onConsole, hx], by simp only [Host.onConsole, hx]⟩

theorem printing_reads (bs : Bytes) : Reads (Host.print bs) :=
  fun _ _ c _ => .inl ⟨(), c.write bs, rfl, rfl⟩

/-! ## Arguments -/

variable {args : List Cell} {i : Nat}

theorem intArg_reads : Reads (intArg args i) :=
  (reads_ofResult _).bind fun _ => reads_ofResult _

theorem ptrArg_reads : Reads (ptrArg args i) :=
  (reads_ofResult _).bind fun _ => reads_ofResult _

theorem stringArg_reads : Reads (stringArg args i) := by
  refine ptrArg_reads.bind fun p => reads_ofHeap fun h k hmem => ?_
  have hload : h.loadString p = k.loadString p := Heap.loadString_ofBytes p hmem
  rw [stringAt, stringAt, hload]

section

variable {s : Host} {p : Addr} {text : Bytes}

theorem ofHeap_of_ok {f : Heap → Except Failure α} {x : α} (hf : f s.heap = .ok x) :
    Host.ofHeap f s = .ok x s := by
  rw [Host.ofHeap, hf]

theorem ofHeap_of_error {f : Heap → Except Failure α} {e : Failure} (hf : f s.heap = .error e) :
    Host.ofHeap f s = .error e s := by
  rw [Host.ofHeap, hf]

/-- An argument that is an integer. -/
theorem intArg_eq {n : Int32} (harg : args[i]? = some (.int n)) : intArg args i s = .ok n s := by
  rw [intArg, argument, harg]
  rfl

/-- An argument that is an address. -/
theorem ptrArg_eq (harg : args[i]? = some (.ptr p)) : ptrArg args i s = .ok p s := by
  rw [ptrArg, argument, harg]
  rfl

/-- An argument that is the address of a string. -/
theorem stringArg_eq (harg : args[i]? = some (.ptr p)) (hp : stringAt p s.heap = .ok text) :
    stringArg args i s = .ok text s := by
  rw [stringArg, bind_of_ok (ptrArg_eq harg), ofHeap_of_ok hp]

/-- A string that is loaded is not at the null pointer. -/
theorem stringAt_of_loadString {h : Heap} (hp : h.loadString p = .ok text) :
    stringAt p h = .ok text := by
  obtain ⟨hlo, -, -, -⟩ := Heap.loadString_eq_ok_iff.1 hp
  rw [stringAt, if_neg (Heap.ne_null_of_le hlo), hp]

end

/-! ## Building -/

/-- The things that native functions build in the heap. -/
inductive Build where
  | string (s : Bytes)
  | int (n : Int32)
  | bool (b : Bool)
  | ints (ns : List Int32)
  | strings (ss : List Bytes)
  | chars (bs : Bytes)

/-- Build a thing, at the address that is given back. -/
def Build.run : Build → Action Heap Addr
  | .string s => Heap.allocString s
  | .int n => Heap.boxInt n
  | .bool b => Heap.boxBool b
  | .ints ns => Heap.allocInts ns
  | .strings ss => Heap.allocStrings ss
  | .chars bs => Heap.allocChars bs

/-- An action that reads, and then builds at most one thing. -/
inductive Builds : Action Host Cell → Prop
  | nothing {x : Action Host Cell} : Reads x → Builds x
  | one (b : Build) : Builds (returning b.run)
  | after {α : Type} {x : Action Host α} {f : α → Action Host Cell} :
    Reads x → (∀ a, Builds (f a)) → Builds (x >>= f)

theorem Builds.ite {p : Prop} [Decidable p] {x y : Action Host Cell} (hx : Builds x)
    (hy : Builds y) : Builds (if p then x else y) := by
  split
  · exact hx
  · exact hy

theorem missing_builds (name : String) (args : List Cell) : Builds ((missing name).call args) :=
  .nothing (reads_ofResult (.error (.fault (.nativeUnavailable name))))

theorem builds_offered {name : String} {arity : Nat} {body : List Cell → Action Host Cell}
    {args : List Cell} (hbody : Builds (body args)) :
    Builds ((offered name arity body).call args) :=
  hbody.ite (.nothing (reads_ofResult (.error (.fault (.nativeArity name arity args.length)))))

theorem reads_offered {name : String} {arity : Nat} {body : List Cell → Action Host Cell}
    {args : List Cell} (hbody : Reads (body args)) : Builds ((offered name arity body).call args) :=
  builds_offered (.nothing hbody)

end Native

namespace Library

open Native

variable {args : List Cell}

/-! ## Terminal functions -/

theorem atEof_reads : Reads (atEof args) :=
  fun _ _ c _ => .inl ⟨.ofBool c.atEnd, c, rfl, rfl⟩

theorem flush_reads : Reads (flush args) :=
  (reads_onConsole _).bind fun _ => reads_pure _

theorem print_reads : Reads (print args) :=
  stringArg_reads.bind fun s => (printing_reads s).bind fun _ => reads_pure _

theorem printLine_reads : Reads (printLine args) :=
  stringArg_reads.bind fun s => (printing_reads s).bind fun _ =>
    (printing_reads _).bind fun _ => reads_pure _

theorem printInt_reads : Reads (printInt args) :=
  intArg_reads.bind fun _ => (printing_reads _).bind fun _ => reads_pure _

theorem printBool_reads : Reads (printBool args) :=
  intArg_reads.bind fun _ => (printing_reads _).bind fun _ => reads_pure _

theorem printChar_reads : Reads (printChar args) :=
  intArg_reads.bind fun _ => (printing_reads _).bind fun _ => reads_pure _

theorem nextLine_reads : Reads nextLine := by
  intro h k c _
  rcases hc : c.takeLine? with _ | ⟨line, d⟩
  · exact .inl ⟨none, c, by simp only [nextLine, hc], by simp only [nextLine, hc]⟩
  · exact .inl ⟨some line, d, by simp only [nextLine, hc], by simp only [nextLine, hc]⟩

theorem readLine_builds : Builds (readLine args) := by
  refine .after (reads_onConsole _) fun _ => .after nextLine_reads fun line => ?_
  cases line with
  | some line => exact .one (.string line)
  | none => exact .nothing (breach_reads _ _)

/-! ## Token functions -/

theorem baseArg_reads {name : String} {i : Nat} : Reads (baseArg name args i) :=
  intArg_reads.bind fun _ => .ite (breach_reads _ _) (reads_pure _)

theorem parseBool_builds : Builds (parseBool args) :=
  .after stringArg_reads fun _ => .ite (.one (.bool true))
    (.ite (.one (.bool false)) (.nothing (reads_pure _)))

theorem parseInt_builds : Builds (parseInt args) := by
  refine .after stringArg_reads fun s => .after baseArg_reads fun base => ?_
  split
  · exact .one (.int _)
  · exact .nothing (reads_pure _)

theorem numTokens_reads : Reads (numTokens args) :=
  stringArg_reads.bind fun _ => reads_pure _

theorem intTokens_reads : Reads (intTokens args) :=
  stringArg_reads.bind fun _ => baseArg_reads.bind fun _ => reads_pure _

theorem parseInts_builds : Builds (parseInts args) := by
  refine .after stringArg_reads fun s => .after baseArg_reads fun base => ?_
  split
  · exact .one (.ints _)
  · exact .nothing (breach_reads _ _)

theorem parseTokens_builds : Builds (parseTokens args) :=
  .after stringArg_reads fun _ => .one (.strings _)

/-! ## String functions -/

theorem stringLength_reads : Reads (stringLength args) :=
  stringArg_reads.bind fun _ => reads_pure _

theorem stringCharAt_reads : Reads (stringCharAt args) := by
  refine stringArg_reads.bind fun s => intArg_reads.bind fun i => .ite (breach_reads _ _) ?_
  split
  · exact reads_pure _
  · exact reads_ofResult (.error .crash)

theorem stringJoin_builds : Builds (stringJoin args) :=
  .after stringArg_reads fun _ => .after stringArg_reads fun _ => .one (.string _)

theorem stringSub_builds : Builds (stringSub args) :=
  .after stringArg_reads fun _ => .after intArg_reads fun _ => .after intArg_reads fun _ =>
    .ite (.nothing (breach_reads _ _)) (.after (reads_ofResult _) fun _ => .one (.string _))

theorem stringEqual_reads : Reads (stringEqual args) :=
  stringArg_reads.bind fun _ => stringArg_reads.bind fun _ => reads_pure _

theorem stringCompare_reads : Reads (stringCompare args) :=
  stringArg_reads.bind fun _ => stringArg_reads.bind fun _ => reads_pure _

theorem stringFromInt_builds : Builds (stringFromInt args) :=
  .after intArg_reads fun _ => .one (.string _)

theorem stringFromBool_builds : Builds (stringFromBool args) :=
  .after intArg_reads fun _ => .one (.string _)

theorem stringFromChar_builds : Builds (stringFromChar args) :=
  .after intArg_reads fun _ => .ite (.nothing (breach_reads _ _)) (.one (.string _))

theorem stringToLower_builds : Builds (stringToLower args) :=
  .after stringArg_reads fun _ => .one (.string _)

theorem charOrd_reads : Reads (charOrd args) :=
  intArg_reads.bind fun _ => reads_pure _

theorem charChr_reads : Reads (charChr args) :=
  intArg_reads.bind fun _ => .ite (breach_reads _ _) (reads_pure _)

/-! ## Character arrays -/

theorem lengthAt_reads (p : Addr) : Reads (Host.ofHeap (lengthAt p)) := by
  refine reads_ofHeap fun h k hmem => ?_
  have hlength : h.arrayLength p = k.arrayLength p := Heap.arrayLength_ofBytes p hmem
  rw [lengthAt, lengthAt, hlength]

theorem stringTerminated_reads : Reads (stringTerminated args) :=
  ptrArg_reads.bind fun p => intArg_reads.bind fun n => (lengthAt_reads p).bind fun _ =>
    .ite (breach_reads _ _)
      ((reads_ofHeap (Heap.readChars_ofBytes _ p n)).bind fun _ => reads_pure _)

theorem stringToCharArray_builds : Builds (stringToCharArray args) :=
  .after stringArg_reads fun _ => .one (.chars _)

theorem stringFromCharArray_builds : Builds (stringFromCharArray args) :=
  .after ptrArg_reads fun p => .after (lengthAt_reads p) fun n =>
    .after (reads_ofHeap (Heap.readChars_ofBytes _ p n)) fun _ =>
      .ite (.one (.string _)) (.nothing (breach_reads _ _))

/-! ## Integer functions -/

theorem absolute_reads : Reads (absolute args) :=
  intArg_reads.bind fun _ => .ite (breach_reads _ _) (reads_pure _)

theorem maximum_reads : Reads (maximum args) :=
  intArg_reads.bind fun _ => intArg_reads.bind fun _ => reads_pure _

theorem minimum_reads : Reads (minimum args) :=
  intArg_reads.bind fun _ => intArg_reads.bind fun _ => reads_pure _

theorem hexDigits_builds : Builds (hexDigits args) :=
  .after intArg_reads fun _ => .one (.string _)

/-! ## The table -/

/-- Every function of the table reads, and then builds at most one thing. -/
theorem builds_of_mem_table {n : Native} (hn : n ∈ table) (args : List Cell) :
    Builds (n.call args) := by
  suffices h : ∀ n ∈ table.toList, Builds (n.call args) from h n hn.val
  -- One line for each function that is offered, in the order of the slots.
  simp only [table, List.forall_mem_cons]
  refine ⟨missing_builds _ _, missing_builds _ _, missing_builds _ _, missing_builds _ _,
    reads_offered atEof_reads,
    reads_offered flush_reads,
    reads_offered print_reads,
    reads_offered printBool_reads,
    reads_offered printChar_reads,
    reads_offered printInt_reads,
    reads_offered printLine_reads,
    builds_offered readLine_builds,
    missing_builds _ _, missing_builds _ _, missing_builds _ _, missing_builds _ _,
    missing_builds _ _, missing_builds _ _, missing_builds _ _, missing_builds _ _,
    missing_builds _ _, missing_builds _ _, missing_builds _ _, missing_builds _ _,
    missing_builds _ _,
    reads_offered intTokens_reads,
    reads_offered numTokens_reads,
    builds_offered parseBool_builds,
    builds_offered parseInt_builds,
    builds_offered parseInts_builds,
    builds_offered parseTokens_builds,
    reads_offered charChr_reads,
    reads_offered charOrd_reads,
    reads_offered stringCharAt_reads,
    reads_offered stringCompare_reads,
    reads_offered stringEqual_reads,
    builds_offered stringFromCharArray_builds,
    builds_offered stringFromBool_builds,
    builds_offered stringFromChar_builds,
    builds_offered stringFromInt_builds,
    builds_offered stringJoin_builds,
    reads_offered stringLength_reads,
    builds_offered stringSub_builds,
    reads_offered stringTerminated_reads,
    builds_offered stringToCharArray_builds,
    builds_offered stringToLower_builds,
    reads_offered absolute_reads,
    reads_offered (reads_pure _),
    reads_offered (reads_pure _),
    reads_offered (reads_pure _),
    builds_offered hexDigits_builds,
    reads_offered maximum_reads,
    reads_offered minimum_reads, List.forall_mem_nil _⟩

end Library

end CZero
