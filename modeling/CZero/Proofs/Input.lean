import CZero.Proofs.Heap.Space
import CZero.Proofs.StringPool
import CZero.Proofs.Terminal
import Mathlib.Logic.Function.Iterate

/-!
# Input is read line by line

Whatever native functions are called on a console, and in whatever order, its input is
its lines less those that were read (`Calls.follows`). So the calls that read a line give
the lines of the input, one after the other, each as a new string in the heap, and when
there are no more the call fails; and the end of the input is seen just then.
-/

namespace CZero

open CZero.Action

namespace Heap

variable {h : Heap}

/-- Without a limit a string always finds room. -/
theorem allocString_of_limit (hlimit : h.limit ≤ 0) (text : Bytes) :
    allocString text h = .ok (addrOf h.size) (h.granted (text.length + 1) text) := by
  rw [allocString_eq, if_neg (not_overLimit hlimit _)]

end Heap

namespace Library

open Native

variable {input : Bytes} {k : Nat} {n : Native} {s : Host}

/-- Native functions have been called on a new console with the input `input`, and `k` of
    the calls were to read a line. There is no limit on the heap; between two calls the
    program may have made another one of it. -/
inductive Calls (input : Bytes) : Nat → Host → Prop
  | start {h : Heap} (hh : h.Reached) (hlimit : h.limit ≤ 0) : Calls input 0 ⟨h, { input }⟩
  | heap {k : Nat} {s : Host} {h : Heap} (hh : h.Reached) (hlimit : h.limit ≤ 0) :
    Calls input k s → Calls input k ⟨h, s.console⟩
  | call {k : Nat} {s : Host} {n : Native} (hn : n ∈ table) (args : List Cell) :
    Calls input k s → Calls input (if readsLine n args then k + 1 else k) (final (n.call args) s)

/-- The input of a working console is `input` less its first `k` lines, and the heap is in
    good order and has no limit. -/
structure Follows (input : Bytes) (k : Nat) (s : Host) : Prop where
  placed : s.heap.Placed
  limit : s.heap.limit ≤ 0
  working : s.console.Working
  lines : Text.lines s.console.input = (Text.lines input).drop k

theorem returnString_of_limit {c : Console} {h : Heap} {text : Bytes} (hlimit : h.limit ≤ 0) :
    returnString text ⟨h, c⟩ =
      .ok (.ptr (Heap.addrOf h.size)) ⟨h.granted (text.length + 1) text, c⟩ := by
  have hstring : Host.onHeap (Heap.allocString text) ⟨h, c⟩ =
      .ok (Heap.addrOf h.size) ⟨h.granted (text.length + 1) text, c⟩ :=
    Host.onHeap_eq_ok.2 ⟨_, Heap.allocString_of_limit hlimit text, rfl⟩
  exact bind_of_ok hstring

theorem placed_call (hn : n ∈ table) (args : List Cell) (hs : s.heap.Placed) :
    (final (n.call args) s).heap.Placed := by
  have hevolves : Heap.Evolves s.heap (final (n.call args) s).heap :=
    (tame_of_mem_table Heap.allocationsWithin_evolves hn args).rel_final s
  exact hevolves.preserves (fun _ _ => Heap.Placed.change) hs

theorem limit_call (hn : n ∈ table) (args : List Cell) (s : Host) :
    (final (n.call args) s).heap.limit = s.heap.limit := by
  have hpays := pays_of_mem_table hn args
  rw [final]
  cases hs : n.call args s with
  | ok v t => exact (hpays.ok hs).limit
  | error e t => exact (hpays.error hs).limit

theorem Follows.call (h : Follows input k s) (hn : n ∈ table) (args : List Cell) :
    Follows input (if readsLine n args then k + 1 else k) (final (n.call args) s) where
  placed := placed_call hn args h.placed
  limit := (limit_call hn args s).trans_le h.limit
  working := (accepts_call hn args h.working).working
  lines := by
    rw [lines_call hn args h.working, h.lines]
    split
    · rw [List.tail_drop]
    · rfl

theorem Calls.follows (h : Calls input k s) : Follows input k s := by
  induction h with
  | start hh hlimit => exact ⟨hh.placed, hlimit, ⟨rfl, rfl⟩, rfl⟩
  | heap hh hlimit _ ih => exact ⟨hh.placed, hlimit, ih.working, ih.lines⟩
  | call hn args _ ih => exact ih.call hn args

/-- The call that reads a line gives the next one, as a new string. -/
theorem Follows.readLine (h : Follows input k s) (hsize : s.heap.size < 2 ^ 63) {line : Bytes}
    (hline : (Text.lines input)[k]? = some line) : ∃ p t,
      readLine [] s = .ok (.ptr p) t ∧
      t.heap.loadString p = .ok (Bytes.before 0 (line.dropEnd 0x0D)) := by
  obtain ⟨hk, rfl⟩ := List.getElem?_eq_some_iff.1 hline
  -- The flush before has left the input alone.
  have hlines : Text.lines s.console.emptied.input = _ :=
    h.lines.trans (List.drop_eq_getElem_cons hk)
  obtain ⟨bs, -, htake⟩ := takeInput_of_lines (s := ⟨s.heap, s.console.emptied⟩) hlines
  rw [readLine_eq h.working, htake]
  refine ⟨_, _, returnString_of_limit h.limit, ?_⟩
  exact Heap.loadString_granted h.placed.reserved hsize _

/-- Without one it fails, and leaves the heap as it is. -/
theorem Follows.readLine_end (h : Follows input k s) (hend : (Text.lines input).length ≤ k) :
    Library.readLine [] s =
      .error (.fault (.contract "readline" .noInput)) ⟨s.heap, s.console.emptied⟩ := by
  rw [readLine_eq h.working]
  refine takeInput_of_lines_nil (h.lines.trans ?_)
  exact List.drop_eq_nil_iff.2 hend

theorem Follows.atEof (h : Follows input k s) :
    atEof [] s = .ok (.ofBool ((Text.lines input).length ≤ k)) s := by
  have hend : s.console.atEnd = decide ((Text.lines input).length ≤ k) := by
    rw [Console.atEnd_eq, h.lines, Bool.eq_iff_iff, List.isEmpty_iff, List.drop_eq_nil_iff,
      decide_eq_true_iff]
  rw [← hend]
  rfl

theorem atEof_mem_table : offered "eof" 0 atEof ∈ table := by
  simp [table]

/-- Input is read line by line. On a new console with the input `input`, native functions
    of the library have been called in any order, with any arguments; `k` calls were to
    read a line. A call that is to read the next one succeeds exactly if the input has
    more than `k` lines, and then it gives the address of a string: the line without its
    newline and without one carriage return before it, up to the first NUL. Else the call
    fails for want of input and leaves the heap as it is. The function that looks for the
    end of the input gives 1 exactly in that case, and changes nothing, however often it
    is called. -/
theorem input_by_lines (hcalls : Calls input k s) (hsize : s.heap.size < 2 ^ 63) :
    (∀ n ∈ table, n.name = "readline" →
      (∀ line, (Text.lines input)[k]? = some line → ∃ p t, n.call [] s = .ok (.ptr p) t ∧
        t.heap.loadString p = .ok (Bytes.before 0 (line.dropEnd 0x0D))) ∧
      ((Text.lines input).length ≤ k → ∃ c t, n.call [] s = .error (.fault c) t ∧
        c.kind = .user ∧ c.message = utf8 "readline: no more input" ∧ t.heap = s.heap)) ∧
    ∀ n ∈ table, n.name = "eof" →
      n.call [] s = .ok (.ofBool ((Text.lines input).length ≤ k)) s ∧
        ∀ j, (final (n.call []))^[j] s = s := by
  have hfollows := hcalls.follows
  constructor
  · intro n hn hname
    obtain rfl := eq_of_name_eq hn readLine_mem_table hname
    refine ⟨fun line hline => hfollows.readLine hsize hline, fun hend => ?_⟩
    exact ⟨_, _, hfollows.readLine_end hend, rfl, by decide, rfl⟩
  · intro n hn hname
    obtain rfl := eq_of_name_eq hn atEof_mem_table hname
    have hcall : (offered "eof" 0 Library.atEof).call [] s = _ := hfollows.atEof
    refine ⟨hcall, fun j => Function.iterate_fixed ?_ j⟩
    rw [final, hcall]

/-- Two lines: the first ends with a carriage return and a newline, and the last, which has
    none, holds a NUL. -/
def twoLines : Bytes :=
  [0x78, 0x0D, 0x0A, 0x79, 0x00, 0x7A]

/-- The host on which the end was looked for and a line was read. -/
def oneRead : Host :=
  final ((offered "readline" 0 readLine).call [])
    (final ((offered "eof" 0 atEof).call []) ⟨.empty, { input := twoLines }⟩)

theorem input_by_lines_oneRead :
    Calls twoLines 1 oneRead ∧ oneRead.heap.size < 2 ^ 63 ∧
      (∃ p t, (offered "readline" 0 readLine).call [] oneRead = .ok (.ptr p) t ∧
        t.heap.loadString p = .ok [0x79]) ∧
      (offered "eof" 0 atEof).call [] oneRead = .ok (.int 0) oneRead := by
  have hcalls : Calls twoLines 1 oneRead :=
    ((Calls.start .empty (by decide)).call atEof_mem_table []).call readLine_mem_table []
  have hsize : oneRead.heap.size < 2 ^ 63 := by decide +kernel
  obtain ⟨hread, heof⟩ := input_by_lines hcalls hsize
  refine ⟨hcalls, hsize, ?_, (heof _ atEof_mem_table rfl).1⟩
  exact (hread _ readLine_mem_table rfl).1 [0x79, 0x00, 0x7A] (by decide)

end Library

end CZero
