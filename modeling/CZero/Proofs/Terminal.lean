import CZero.Proofs.Console
import CZero.Proofs.Library
import Mathlib.Data.List.Nodup

/-!
# What native functions do to the console

Most native functions leave the console alone (`Quiet`). Five of them print: a call that
returns has handed its text to the console and done nothing else there, and a call that
fails has not touched it (`Prints`). The other two flush. So on a working console every
call adds to the output what it printed, and nothing is lost or reordered
(`accepts_call`); and only a call that reads a line takes any input (`lines_call`).
-/

namespace CZero

open CZero.Action

/-- The consoles of two hosts are the same; the heaps are free. -/
def Host.SameConsole (s t : Host) : Prop :=
  t.console = s.console

instance : IsPreorder Host Host.SameConsole where
  refl _ := rfl
  trans _ _ _ h h' := h'.trans h

namespace Native

variable {α β : Type} {s : Host}

/-! ## Quiet actions -/

/-- A native action is quiet if it leaves the console as it is. -/
def Quiet (x : Action Host α) : Prop :=
  Within Host.SameConsole (fun _ => True) x

theorem quiet_pure (a : α) : Quiet (pure a) :=
  within_pure a

theorem quiet_get : Quiet (get : Action Host Host) :=
  within_get

theorem quiet_ofResult (r : Except Failure α) : Quiet (Action.ofResult r) :=
  within_ofResult fun _ _ => trivial

theorem quiet_fault (c : Fault.Cause) : Quiet (Action.fault c : Action Host α) :=
  within_fault c trivial

theorem quiet_breach (name : String) (b : Fault.Breach) :
    Quiet (breach name b : Action Host α) :=
  quiet_fault _

theorem Quiet.bind {x : Action Host α} {f : α → Action Host β} (hx : Quiet x)
    (hf : ∀ a, Quiet (f a)) : Quiet (x >>= f) :=
  Within.bind hx hf

theorem Quiet.ite {p : Prop} [Decidable p] {x y : Action Host α} (hx : Quiet x)
    (hy : Quiet y) : Quiet (if p then x else y) :=
  Within.ite (fun _ => hx) fun _ => hy

theorem quiet_ofHeap (f : Heap → Except Failure α) : Quiet (Host.ofHeap f) := by
  refine ⟨fun {s a t} h => ?_, fun {s e t} h => ?_⟩ <;> unfold Host.ofHeap at h <;>
    split at h <;> cases h
  · exact refl s
  · exact ⟨refl s, trivial⟩

theorem quiet_onHeap (x : Action Heap α) : Quiet (Host.onHeap x) := by
  refine ⟨fun {s a t} h => ?_, fun {s e t} h => ?_⟩
  · obtain ⟨k, -, rfl⟩ := Host.onHeap_eq_ok.1 h
    rfl
  · obtain ⟨k, -, rfl⟩ := Host.onHeap_eq_error.1 h
    exact ⟨rfl, trivial⟩

theorem quiet_returning (x : Action Heap Addr) : Quiet (returning x) :=
  (quiet_onHeap x).bind fun _ => quiet_pure _

theorem quiet_returnString (s : Bytes) : Quiet (returnString s) :=
  quiet_returning _

variable {args : List Cell} {i : Nat}

theorem intArg_quiet : Quiet (intArg args i) :=
  (quiet_ofResult _).bind fun _ => quiet_ofResult _

theorem ptrArg_quiet : Quiet (ptrArg args i) :=
  (quiet_ofResult _).bind fun _ => quiet_ofResult _

theorem stringArg_quiet : Quiet (stringArg args i) :=
  ptrArg_quiet.bind fun _ => quiet_ofHeap _

theorem missing_quiet (name : String) (args : List Cell) : Quiet ((missing name).call args) :=
  quiet_fault _

variable {name : String} {arity : Nat} {body : List Cell → Action Host Cell}

theorem offered_call (h : args.length = arity) : (offered name arity body).call args = body args :=
  if_pos h

theorem offered_call_of_ne (h : args.length ≠ arity) : (offered name arity body).call args =
    fault (.nativeArity name arity args.length) :=
  if_neg h

theorem quiet_offered (hbody : Quiet (body args)) : Quiet ((offered name arity body).call args) :=
  hbody.ite (quiet_fault _)

/-! ## Printing -/

/-- The string at an address; nothing if there is none. -/
def textAt (p : Addr) (h : Heap) : Bytes :=
  match stringAt p h with
  | .ok s => s
  | .error _ => []

/-- What a call of the function `name` prints if it returns. -/
def payload (name : String) (args : List Cell) (h : Heap) : Bytes :=
  match name, args with
  | "print", [.ptr p] => textAt p h
  | "println", [.ptr p] => textAt p h ++ [0x0A]
  | "printint", [.int n] => decimal n.toInt
  | "printbool", [.int n] => boolText n
  | "printchar", [.int n] => [n.toUInt32.toUInt8]
  | _, _ => []

/-- A call that returns hands `out` of its heap to the console, and one that fails does
    nothing there. -/
def Prints (out : Heap → Bytes) (x : Action Host Cell) : Prop :=
  ∀ s, EndsIn (fun _ t => t.console = s.console.write (out s.heap))
    (fun _ t => t.console = s.console) (x s)

theorem Quiet.prints {x : Action Host Cell} (hx : Quiet x) : Prints (fun _ => []) x := by
  intro s
  cases hs : x s with
  | ok a t => exact hx.ok hs
  | error e t => exact (hx.error hs).1

theorem prints_offered {out : Heap → Bytes} (hbody : args.length = arity → Prints out (body args)) :
    Prints out ((offered name arity body).call args) := by
  intro s
  by_cases h : args.length = arity
  · rw [offered_call h]
    exact hbody h s
  · rw [offered_call_of_ne h]
    exact rfl

theorem print_append (as bs : Bytes) :
    (do Host.print as; Host.print bs) = Host.print (as ++ bs) := by
  funext s
  change EStateM.Result.ok () _ = EStateM.Result.ok () _
  simp only [Console.write, List.foldl_append]

/-- Printing what an argument stands for. -/
theorem prints_of_arg {x : Action Host α} {text : α → Bytes} {out : Heap → Bytes} (hx : Quiet x)
    (hout : ∀ s a t, x s = .ok a t → out s.heap = text a) :
    Prints out (do
      let a ← x
      Host.print (text a)
      return .null) := by
  intro s
  cases hs : x s with
  | ok a t =>
    have hconsole : t.console = s.console := hx.ok hs
    rw [bind_of_ok hs, hout s a t hs, ← hconsole]
    exact rfl
  | error e t =>
    rw [bind_of_error hs]
    exact (hx.error hs).1

theorem eq_of_intArg {c : Cell} {n : Int32} {t : Host} (h : intArg [c] 0 s = .ok n t) :
    c = .int n := by
  cases c with
  | int k =>
    cases h
    rfl
  | ptr p => cases h

theorem eq_of_stringArg {c : Cell} {text : Bytes} {t : Host}
    (h : stringArg [c] 0 s = .ok text t) : ∃ p, c = .ptr p ∧ textAt p s.heap = text := by
  cases c with
  | int n => cases h
  | ptr p =>
    refine ⟨p, rfl, ?_⟩
    have hread : Host.ofHeap (stringAt p) s = .ok text t := h
    rw [Host.ofHeap] at hread
    rw [textAt]
    split at hread <;> cases hread
    rename_i hok
    rw [hok]

end Native

namespace Library

open Native

variable {args : List Cell} {n m : Native} {s : Host}

/-! ## The functions that print -/

theorem print_prints (h : args.length = 1) : Prints (payload "print" args) (print args) := by
  obtain ⟨c, rfl⟩ := List.length_eq_one_iff.1 h
  refine prints_of_arg stringArg_quiet fun s text t hs => ?_
  obtain ⟨p, rfl, htext⟩ := eq_of_stringArg hs
  exact htext

theorem printLine_prints (h : args.length = 1) :
    Prints (payload "println" args) (printLine args) := by
  obtain ⟨c, rfl⟩ := List.length_eq_one_iff.1 h
  -- The newline is handed over behind the string.
  have hline : printLine [c] = do
      let text ← stringArg [c] 0
      Host.print (text ++ [0x0A])
      return .null := by
    simp only [printLine, ← print_append, bind_assoc]
  rw [hline]
  refine prints_of_arg stringArg_quiet fun s text t hs => ?_
  obtain ⟨p, rfl, rfl⟩ := eq_of_stringArg hs
  rfl

/-- Printing a text that an integer stands for. -/
theorem prints_int {name : String} {text : Int32 → Bytes}
    (htext : ∀ n h, payload name [.int n] h = text n) (h : args.length = 1) :
    Prints (payload name args) (do
      let n ← intArg args 0
      Host.print (text n)
      return .null) := by
  obtain ⟨c, rfl⟩ := List.length_eq_one_iff.1 h
  refine prints_of_arg intArg_quiet fun s n t hs => ?_
  obtain rfl := eq_of_intArg hs
  exact htext n s.heap

/-! ## The table -/

/-- The functions that print. -/
def printers : List String :=
  ["print", "printbool", "printchar", "printint", "println"]

theorem payload_of_notMem {name : String} (h : name ∉ printers) (args : List Cell) :
    payload name args = fun _ => [] := by
  funext heap
  simp only [printers, List.mem_cons, List.not_mem_nil, or_false, not_or] at h
  unfold payload
  split <;> simp_all

theorem baseArg_quiet {name : String} {i : Nat} : Quiet (baseArg name args i) :=
  intArg_quiet.bind fun _ => (quiet_breach _ _).ite (quiet_pure _)

theorem parseBool_quiet : Quiet (parseBool args) :=
  stringArg_quiet.bind fun _ => (quiet_returning _).ite ((quiet_returning _).ite (quiet_pure _))

theorem parseInt_quiet : Quiet (parseInt args) := by
  refine stringArg_quiet.bind fun text => baseArg_quiet.bind fun base => ?_
  split
  · exact quiet_returning _
  · exact quiet_pure _

theorem parseInts_quiet : Quiet (parseInts args) := by
  refine stringArg_quiet.bind fun text => baseArg_quiet.bind fun base => ?_
  split
  · exact quiet_returning _
  · exact quiet_breach _ _

theorem stringCharAt_quiet : Quiet (stringCharAt args) := by
  refine stringArg_quiet.bind fun text => intArg_quiet.bind fun i => (quiet_breach _ _).ite ?_
  split
  · exact quiet_pure _
  · exact quiet_ofResult (.error .crash)

theorem stringSub_quiet : Quiet (stringSub args) :=
  stringArg_quiet.bind fun _ => intArg_quiet.bind fun _ => intArg_quiet.bind fun _ =>
    (quiet_breach _ _).ite ((quiet_ofResult _).bind fun _ => quiet_returnString _)

theorem stringTerminated_quiet : Quiet (stringTerminated args) :=
  ptrArg_quiet.bind fun _ => intArg_quiet.bind fun _ => (quiet_ofHeap _).bind fun _ =>
    (quiet_breach _ _).ite ((quiet_ofHeap _).bind fun _ => quiet_pure _)

theorem stringFromCharArray_quiet : Quiet (stringFromCharArray args) :=
  ptrArg_quiet.bind fun _ => (quiet_ofHeap _).bind fun _ => (quiet_ofHeap _).bind fun _ =>
    (quiet_returnString _).ite (quiet_breach _ _)

/-- Every function of the table prints its payload, but for the two that flush. -/
theorem prints_of_mem_table (hn : n ∈ table) (hflush : n.name ≠ "flush")
    (hread : n.name ≠ "readline") (args : List Cell) :
    Prints (payload n.name args) (n.call args) := by
  suffices h : ∀ n ∈ table.toList, n.name ≠ "flush" → n.name ≠ "readline" →
      Prints (payload n.name args) (n.call args) from h n hn.val hflush hread
  -- A function that is not one of the five is quiet.
  have hquiet {n : Native} (hname : n.name ∉ printers) (hcall : Quiet (n.call args)) :
      n.name ≠ "flush" → n.name ≠ "readline" → Prints (payload n.name args) (n.call args) := by
    intro _ _
    rw [payload_of_notMem hname]
    exact hcall.prints
  have hmissing (name : String) (hname : name ∉ printers) :=
    hquiet (n := missing name) hname (missing_quiet name args)
  have hoffered {name : String} {arity : Nat} {body : List Cell → Action Host Cell}
      (hname : name ∉ printers) (hbody : Quiet (body args)) :=
    hquiet (n := offered name arity body) hname (quiet_offered hbody)
  -- One line for each function that is offered, in the order of the slots.
  simp only [table, List.forall_mem_cons]
  refine ⟨hmissing _ (by decide), hmissing _ (by decide), hmissing _ (by decide),
    hmissing _ (by decide),
    hoffered (by decide) (quiet_get.bind fun _ => quiet_pure _),
    fun hflush => absurd rfl hflush,
    fun _ _ => prints_offered print_prints,
    fun _ _ => prints_offered (prints_int fun _ _ => rfl),
    fun _ _ => prints_offered (prints_int fun _ _ => rfl),
    fun _ _ => prints_offered (prints_int fun _ _ => rfl),
    fun _ _ => prints_offered printLine_prints,
    fun _ hread => absurd rfl hread,
    hmissing _ (by decide), hmissing _ (by decide), hmissing _ (by decide),
    hmissing _ (by decide), hmissing _ (by decide), hmissing _ (by decide),
    hmissing _ (by decide), hmissing _ (by decide), hmissing _ (by decide),
    hmissing _ (by decide), hmissing _ (by decide), hmissing _ (by decide),
    hmissing _ (by decide),
    hoffered (by decide) (stringArg_quiet.bind fun _ => baseArg_quiet.bind fun _ => quiet_pure _),
    hoffered (by decide) (stringArg_quiet.bind fun _ => quiet_pure _),
    hoffered (by decide) parseBool_quiet,
    hoffered (by decide) parseInt_quiet,
    hoffered (by decide) parseInts_quiet,
    hoffered (by decide) (stringArg_quiet.bind fun _ => quiet_returning _),
    hoffered (by decide) (intArg_quiet.bind fun _ => (quiet_breach _ _).ite (quiet_pure _)),
    hoffered (by decide) (intArg_quiet.bind fun _ => quiet_pure _),
    hoffered (by decide) stringCharAt_quiet,
    hoffered (by decide) (stringArg_quiet.bind fun _ => stringArg_quiet.bind fun _ => quiet_pure _),
    hoffered (by decide) (stringArg_quiet.bind fun _ => stringArg_quiet.bind fun _ => quiet_pure _),
    hoffered (by decide) stringFromCharArray_quiet,
    hoffered (by decide) (intArg_quiet.bind fun _ => quiet_returnString _),
    hoffered (by decide) (intArg_quiet.bind fun _ =>
      (quiet_breach _ _).ite (quiet_returnString _)),
    hoffered (by decide) (intArg_quiet.bind fun _ => quiet_returnString _),
    hoffered (by decide) (stringArg_quiet.bind fun _ => stringArg_quiet.bind fun _ =>
      quiet_returnString _),
    hoffered (by decide) (stringArg_quiet.bind fun _ => quiet_pure _),
    hoffered (by decide) stringSub_quiet,
    hoffered (by decide) stringTerminated_quiet,
    hoffered (by decide) (stringArg_quiet.bind fun _ => quiet_returning _),
    hoffered (by decide) (stringArg_quiet.bind fun _ => quiet_returnString _),
    hoffered (by decide) (intArg_quiet.bind fun _ => (quiet_breach _ _).ite (quiet_pure _)),
    hoffered (by decide) (quiet_pure _),
    hoffered (by decide) (quiet_pure _),
    hoffered (by decide) (quiet_pure _),
    hoffered (by decide) (intArg_quiet.bind fun _ => quiet_returnString _),
    hoffered (by decide) (intArg_quiet.bind fun _ => intArg_quiet.bind fun _ => quiet_pure _),
    hoffered (by decide) (intArg_quiet.bind fun _ => intArg_quiet.bind fun _ => quiet_pure _),
    List.forall_mem_nil _⟩

/-- A name stands for one function. -/
theorem eq_of_name_eq (hn : n ∈ table) (hm : m ∈ table) (h : n.name = m.name) : n = m := by
  have hnames : (table.toList.map Native.name).Nodup := by decide
  exact List.inj_on_of_nodup_map hnames hn.val hm.val h

/-! ## The functions that flush -/

/-- What reading a line does when the output has been flushed. -/
def takeInput : Action Host Cell := do
  match ← nextLine with
  | some line => returnString line
  | none => breach "readline" .noInput

theorem onConsole_flush (hs : s.console.Working) :
    Host.onConsole Console.flush s = .ok () ⟨s.heap, s.console.emptied⟩ := by
  simp only [Host.onConsole, Console.flush_of_working hs]

theorem flush_eq (hs : s.console.Working) :
    flush args s = .ok .null ⟨s.heap, s.console.emptied⟩ := by
  rw [flush, bind_of_ok (onConsole_flush hs)]
  rfl

theorem readLine_eq (hs : s.console.Working) :
    readLine args s = takeInput ⟨s.heap, s.console.emptied⟩ := by
  rw [readLine, bind_of_ok (onConsole_flush hs)]
  rfl

/-- With a line in the input, its string is given back and the other lines are left. -/
theorem takeInput_of_lines {line : Bytes} {rest : List Bytes}
    (h : Text.lines s.console.input = line :: rest) : ∃ bs, Text.lines bs = rest ∧
      takeInput s = returnString (line.dropEnd 0x0D) ⟨s.heap, { s.console with input := bs }⟩ := by
  obtain ⟨bs, hbs, htake⟩ := Console.takeLine?_of_lines h
  refine ⟨bs, hbs, ?_⟩
  have hnext : nextLine s =
      .ok (some (line.dropEnd 0x0D)) ⟨s.heap, { s.console with input := bs }⟩ := by
    rw [nextLine, htake]
  rw [takeInput, bind_of_ok hnext]

/-- Without one, the call fails and takes nothing. -/
theorem takeInput_of_lines_nil (h : Text.lines s.console.input = []) :
    takeInput s = .error (.fault (.contract "readline" .noInput)) s := by
  have hnext : nextLine s = .ok none s := by
    rw [nextLine, Console.takeLine?_of_lines_nil h]
  rw [takeInput, bind_of_ok hnext]
  rfl

/-- Taking input leaves the output alone, and takes at most a line. -/
theorem console_takeInput (s : Host) : ∃ bs, Text.lines bs = (Text.lines s.console.input).tail ∧
    (final takeInput s).console = { s.console with input := bs } := by
  cases hlines : Text.lines s.console.input with
  | nil =>
    refine ⟨s.console.input, hlines, ?_⟩
    rw [final, takeInput_of_lines_nil hlines]
  | cons line rest =>
    obtain ⟨bs, hbs, htake⟩ := takeInput_of_lines hlines
    refine ⟨bs, hbs, ?_⟩
    have hquiet := (quiet_returnString (line.dropEnd 0x0D)).rel_final
      ⟨s.heap, { s.console with input := bs }⟩
    rw [final, ← htake, ← final] at hquiet
    exact hquiet

/-! ## All functions -/

/-- What a call adds to the output: its payload, if it returns. -/
def said (n : Native) (args : List Cell) (s : Host) : Bytes :=
  match n.call args s with
  | .ok .. => payload n.name args s.heap
  | .error .. => []

theorem said_of_notMem (h : n.name ∉ printers) (args : List Cell) (s : Host) :
    said n args s = [] := by
  rw [said]
  split
  · rw [payload_of_notMem h]
  · rfl

/-- Whether a call reads a line. -/
def readsLine (n : Native) (args : List Cell) : Bool :=
  n.name == "readline" && args.isEmpty

theorem flush_mem_table : offered "flush" 0 flush ∈ table := by
  simp [table]

theorem readLine_mem_table : offered "readline" 0 readLine ∈ table := by
  simp [table]

/-- What a call makes of a working console. -/
inductive Leaves (n : Native) (args : List Cell) (s : Host) : Console → Prop
  /-- It has printed, or has left the console alone. -/
  | printed (hread : readsLine n args = false) :
    Leaves n args s (s.console.write (said n args s))
  /-- It has flushed. -/
  | flushed (hread : readsLine n args = false) (hsaid : said n args s = []) :
    Leaves n args s s.console.emptied
  /-- It has flushed and taken a line, if there was one. -/
  | read {bs : Bytes} (hread : readsLine n args) (hsaid : said n args s = [])
      (hbs : Text.lines bs = (Text.lines s.console.input).tail) :
    Leaves n args s { s.console.emptied with input := bs }

theorem leaves_of_fault {c : Fault.Cause} (hread : readsLine n args = false)
    (h : n.call args = fault c) : Leaves n args s (final (n.call args) s).console := by
  have hsaid : said n args s = [] := by
    rw [said, h]
    rfl
  have hleaves : Leaves n args s (s.console.write (said n args s)) := .printed hread
  rw [hsaid] at hleaves
  rw [h]
  exact hleaves

theorem leaves_flush (args : List Cell) (hs : s.console.Working) :
    Leaves (offered "flush" 0 flush) args s
      (final ((offered "flush" 0 flush).call args) s).console := by
  by_cases h : args.length = 0
  · rw [offered_call h, final, flush_eq hs]
    exact .flushed rfl (said_of_notMem (by decide) args s)
  · exact leaves_of_fault rfl (offered_call_of_ne h)

theorem leaves_readLine (args : List Cell) (hs : s.console.Working) :
    Leaves (offered "readline" 0 readLine) args s
      (final ((offered "readline" 0 readLine).call args) s).console := by
  by_cases h : args.length = 0
  · obtain ⟨bs, hbs, hconsole⟩ := console_takeInput ⟨s.heap, s.console.emptied⟩
    rw [offered_call h, final, readLine_eq hs, ← final, hconsole]
    obtain rfl := List.length_eq_zero_iff.1 h
    exact .read rfl (said_of_notMem (by decide) [] s) hbs
  · refine leaves_of_fault ?_ (offered_call_of_ne h)
    cases args with
    | nil => exact absurd rfl h
    | cons c cs => rfl

theorem leaves_call (hn : n ∈ table) (args : List Cell) (hs : s.console.Working) :
    Leaves n args s (final (n.call args) s).console := by
  by_cases hflush : n.name = "flush"
  · obtain rfl := eq_of_name_eq hn flush_mem_table hflush
    exact leaves_flush args hs
  by_cases hread : n.name = "readline"
  · obtain rfl := eq_of_name_eq hn readLine_mem_table hread
    exact leaves_readLine args hs
  have hprints := prints_of_mem_table hn hflush hread args s
  have hleaves : Leaves n args s (s.console.write (said n args s)) :=
    .printed (by simp [readsLine, hread])
  rw [said] at hleaves
  rw [final]
  cases hcall : n.call args s with
  | ok v t =>
    rw [hcall] at hprints hleaves
    rw [hprints]
    exact hleaves
  | error e t =>
    rw [hcall] at hprints hleaves
    rw [hprints]
    exact hleaves

/-- What a call has printed stands behind the output before it; nothing is lost. -/
theorem accepts_call (hn : n ∈ table) (args : List Cell) (hs : s.console.Working) :
    s.console.Accepts (said n args s) (final (n.call args) s).console := by
  have hleaves := leaves_call hn args hs
  generalize (final (n.call args) s).console = d at hleaves
  cases hleaves with
  | printed _ => exact hs.accepts_write _
  | flushed _ hsaid =>
    rw [hsaid]
    exact hs.accepts_emptied
  | read _ hsaid _ =>
    rw [hsaid]
    exact hs.accepts_emptied.with_input _

/-- A call that reads a line takes the first one that is left, and others take none. -/
theorem lines_call (hn : n ∈ table) (args : List Cell) (hs : s.console.Working) :
    Text.lines (final (n.call args) s).console.input =
      if readsLine n args then (Text.lines s.console.input).tail
      else Text.lines s.console.input := by
  have hleaves := leaves_call hn args hs
  generalize (final (n.call args) s).console = d at hleaves
  cases hleaves with
  | printed hread =>
    rw [hs.input_write, hread]
    rfl
  | flushed hread _ =>
    rw [hread]
    rfl
  | read hread _ hbs =>
    rw [if_pos hread]
    exact hbs

end Library

end CZero
