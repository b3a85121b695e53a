import CZero.Machine.Step
import CZero.Proofs.Action

/-!
# Instructions by their parts

What an instruction does is made of parts: cells are taken off the stack and put there,
memory is read and written, and some of this may fail. A property of actions that is
passed on from parts to the whole, and that these parts have, is one that instructions
have (`Composes.perform`). Most of what is known of all instructions is of this kind: what
a step leaves as it is, what it costs and what it does not see.
-/

namespace CZero

open CZero.Action

/-- Whether an instruction is a branch. -/
def Instr.isBranch : Instr → Bool
  | .branchEq .. | .branchOrd .. | .goto _ => true
  | _ => false

namespace Machine

open State

variable {m : Machine} {i : Instr}

/-- The property is passed on from the parts of an action to the whole, and the parts that
    most instructions are made of have it. Of faults, it is enough to look at those that the
    machine finds; the size of an element is a byte. -/
structure Composes (P : ∀ {α : Type}, Action State α → Prop) : Prop where
  pure {α : Type} (a : α) : P (pure a : Action State α)
  bind {α β : Type} {x : Action State α} {f : α → Action State β} :
    P x → (∀ a, P (f a)) → P (x >>= f)
  fault {α : Type} (c : Fault.Cause) :
    Failure.IsFault (.fault c) → P (Action.fault c : Action State α)
  push (c : Cell) : P (State.push c)
  pop : P State.pop
  popInt : P State.popInt
  popPtr : P State.popPtr
  getLocal (k : Nat) : P (onFrame (Frame.getLocal k))
  setLocal (k : Nat) (c : Cell) : P (onFrame (Frame.setLocal k c))
  popArgs (k : Nat) : P (onFrame (Frame.popArgs k))
  apply (op : IntOp) (a b : Int32) : P (Action.ofResult (op.apply a b) : Action State Int32)
  loadCell (kind : CellKind) (p : Addr) : P (ofHeap (Machine.loadCell kind p))
  loadString (p : Addr) : P (ofHeap (·.loadString p))
  arrayLength (p : Addr) : P (ofHeap (·.arrayLength p))
  arrayElement (p : Addr) (n : Int32) : P (ofHeap (·.arrayElement p n))
  storeInt (p : Addr) (n : Int32) : P (onHeap (Heap.storeInt p n))
  storePtr (p q : Addr) : P (onHeap (Heap.storePtr p q))
  storeChar (p : Addr) (b : UInt8) : P (onHeap (Heap.storeChar p b))
  allocArray (n : Int32) (k : UInt8) : P (onHeap (Heap.allocArray n k.toNat))

variable {P : ∀ {α : Type}, Action State α → Prop}

theorem Composes.ite (_ : Composes P) {α : Type} {p : Prop} [Decidable p] {x y : Action State α}
    (hx : p → P x) (hy : ¬p → P y) : P (if p then x else y) := by
  split
  · exact hx ‹_›
  · exact hy ‹_›

theorem Composes.storeCell (hP : Composes P) (kind : CellKind) : P (storeCell kind) := by
  cases kind with
  | int => exact hP.bind hP.popInt fun n => hP.bind hP.popPtr fun p => hP.storeInt p n
  | ptr => exact hP.bind hP.popPtr fun q => hP.bind hP.popPtr fun p => hP.storePtr p q
  | char => exact hP.bind hP.popInt fun n => hP.bind hP.popPtr fun p => hP.storeChar p _

theorem Composes.prepareNative (hP : Composes P) (index : Nat) : P (m.prepareNative index) := by
  simp only [Machine.prepareNative, fault_bind]
  refine hP.ite (fun _ => hP.fault _ trivial) fun hindex => ?_
  rw [fetch_of_lt (by omega)]
  refine hP.bind (hP.pure _) fun ref => hP.bind (hP.popArgs _) fun args => ?_
  split
  · exact hP.pure _
  · exact hP.fault _ trivial

/-- An instruction has the property that its parts have. Branches, calls and the allocation
    of a block are left to be looked at. -/
theorem Composes.perform (hP : Composes P)
    (hbranch : i.isBranch → ∀ offset, P (get >>= fun s : State => branch s.last offset))
    (hcall : ∀ index, i = .call index → P (m.call index.toNat))
    (hnative : ∀ index, i = .callNative index → P (m.prepareNative index.toNat >>= Call.perform))
    (hnew : ∀ size, i = .new size → P (onHeap (Heap.alloc size.toNat))) : P (m.perform i) := by
  cases i with
  | nop | ret => exact hP.pure ()
  | pop => exact hP.bind hP.pop fun _ => hP.pure ()
  | dup => exact hP.bind hP.pop fun c => hP.bind (hP.push c) fun _ => hP.push c
  | swap =>
    exact hP.bind hP.pop fun b => hP.bind hP.pop fun a => hP.bind (hP.push b) fun _ => hP.push a
  | pushNull => exact hP.push _
  | pushInt n => exact hP.push _
  | pushConst index =>
    simp only [Machine.perform, fault_bind]
    refine hP.ite (fun _ => hP.fault _ trivial) fun hindex => ?_
    rw [fetch_of_lt (by omega)]
    exact hP.push _
  | pushString offset =>
    simp only [Machine.perform, fault_bind]
    exact hP.ite (fun _ => hP.fault _ trivial) fun _ => hP.push _
  | getLocal index => exact hP.bind (hP.getLocal _) hP.push
  | setLocal index => exact hP.bind hP.pop fun c => hP.setLocal _ c
  | arith op =>
    exact hP.bind hP.popInt fun b => hP.bind hP.popInt fun a =>
      hP.bind (hP.apply op a b) fun n => hP.push _
  | branchEq want offset =>
    exact hP.bind hP.pop fun b => hP.bind hP.pop fun a =>
      hP.ite (fun _ => hbranch rfl offset) fun _ => hP.pure ()
  | branchOrd order offset =>
    exact hP.bind hP.popInt fun b => hP.bind hP.popInt fun a =>
      hP.ite (fun _ => hbranch rfl offset) fun _ => hP.pure ()
  | goto offset => exact hbranch rfl offset
  | athrow => exact hP.bind hP.popPtr fun p => hP.bind (hP.loadString p) fun _ => hP.fault _ trivial
  | assert =>
    exact hP.bind hP.popPtr fun p => hP.bind hP.popInt fun n =>
      hP.ite (fun _ => hP.bind (hP.loadString p) fun _ => hP.fault _ trivial) fun _ => hP.pure ()
  | call index => exact hcall index rfl
  | callNative index => exact hnative index rfl
  | new size => exact hP.bind (hnew size rfl) fun p => hP.push _
  | field offset =>
    simp only [Machine.perform, fault_bind]
    exact hP.bind hP.popPtr fun p => hP.ite (fun _ => hP.fault _ trivial) fun _ => hP.push _
  | load kind => exact hP.bind hP.popPtr fun p => hP.bind (hP.loadCell kind p) hP.push
  | store kind => exact hP.storeCell kind
  | newArray eltSize =>
    exact hP.bind hP.popInt fun n => hP.bind (hP.allocArray n _) fun p => hP.push _
  | arrayLength => exact hP.bind hP.popPtr fun p => hP.bind (hP.arrayLength p) fun n => hP.push _
  | arrayElement =>
    exact hP.bind hP.popInt fun n => hP.bind hP.popPtr fun p =>
      hP.bind (hP.arrayElement p n) fun q => hP.push _

end Machine

end CZero
