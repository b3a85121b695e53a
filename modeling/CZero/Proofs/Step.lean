import CZero.Proofs.Composition
import CZero.Proofs.Frame
import CZero.Proofs.Library

/-!
# What one step does

A step that succeeds stays in its frame, enters a function, goes back to the caller,
or ends the run (`Moved`, `step_moved`). Only the second and the third touch the call
stack, and each is bound to its instruction: a frame is suspended behind the call it
made, and left at a return with nothing but the returned cell on its stack. A step
that fails has stayed in its frame (`step_error`).

What a step may do to the host, and why it may fail, depends on the native functions.
Both are kept open: a machine *obeys* a relation `H` on hosts and a set `E` of failures
if its native functions do, the heap evolves within `H` and the faults that the machine
finds are in `E` (`Admits`).
-/

namespace CZero

open CZero.Action

namespace CallStack

theorem ext_frames {cs ds : CallStack} (h : cs.frames = ds.frames) : cs = ds := by
  obtain ⟨fs, n, rfl⟩ := cs
  obtain ⟨gs, k, rfl⟩ := ds
  obtain rfl : fs = gs := h
  rfl

theorem depth_push (f : Frame) (cs : CallStack) : (cs.push f).depth = cs.depth + 1 := rfl

theorem pop?_eq_none {cs : CallStack} (h : cs.pop? = none) : cs = .empty := by
  obtain ⟨fs, n, rfl⟩ := cs
  cases fs with
  | nil => rfl
  | cons f fs => cases h

theorem eq_push_of_pop? {cs rest : CallStack} {f : Frame} (h : cs.pop? = some (f, rest)) :
    cs = rest.push f := by
  obtain ⟨fs, n, rfl⟩ := cs
  cases fs with
  | nil => cases h
  | cons g fs =>
    cases h
    rfl

end CallStack

/-- A function that is called has all its variables. -/
theorem Frame.size_locals_enter {index : Nat} {f : Function} {args : List Cell}
    (h : args.length ≤ f.vars.toNat) : (Frame.enter index f args).locals.size = f.vars.toNat := by
  simp only [enter, Array.size_append, List.size_toArray, Array.size_replicate]
  omega

namespace State

/-- The current frame and the suspended ones, the most recent first. -/
def activations (s : State) : List Frame :=
  s.frame :: s.callers.frames

theorem length_activations (s : State) : s.activations.length = s.callers.depth + 1 := by
  rw [activations, List.length_cons, s.callers.depth_eq]

/-- `t` is `s` in the same activation, with a host that `H` allows. -/
structure Stays (H : Host → Host → Prop) (s t : State) : Prop where
  body : s.frame.SameBody t.frame
  callers : t.callers = s.callers
  host : H s.host t.host
  last : t.last = s.last

variable {H : Host → Host → Prop} {E : Failure → Prop} {α : Type}

instance [IsPreorder Host H] : IsPreorder State (Stays H) where
  refl s := ⟨refl s.frame, rfl, refl s.host, rfl⟩
  trans s t u h h' :=
    ⟨IsTrans.trans s.frame t.frame u.frame h.body h'.body, h'.callers.trans h.callers,
      IsTrans.trans s.host t.host u.host h.host h'.host, h'.last.trans h.last⟩

theorem onFrame_eq_ok {x : Action Frame α} {s t : State} {a : α} :
    onFrame x s = .ok a t ↔ ∃ g, x s.frame = .ok a g ∧ t = { s with frame := g } := by
  cases hx : x s.frame <;> simp [onFrame, hx, eq_comm, and_assoc]

theorem onFrame_eq_error {x : Action Frame α} {s t : State} {e : Failure} :
    onFrame x s = .error e t ↔ ∃ g, x s.frame = .error e g ∧ t = { s with frame := g } := by
  cases hx : x s.frame <;> simp [onFrame, hx, eq_comm, and_assoc]

theorem onHost_eq_ok {x : Action Host α} {s t : State} {a : α} :
    onHost x s = .ok a t ↔ ∃ h, x s.host = .ok a h ∧ t = { s with host := h } := by
  cases hx : x s.host <;> simp [onHost, hx, eq_comm, and_assoc]

theorem onHost_eq_error {x : Action Host α} {s t : State} {e : Failure} :
    onHost x s = .error e t ↔ ∃ h, x s.host = .error e h ∧ t = { s with host := h } := by
  cases hx : x s.host <;> simp [onHost, hx, eq_comm, and_assoc]

theorem onHost_within {x : Action Host α} (hx : Within H E x) : Within (Stays H) E (onHost x) where
  ok h := by
    obtain ⟨k, hk, rfl⟩ := onHost_eq_ok.1 h
    exact ⟨refl _, rfl, hx.ok hk, rfl⟩
  error h := by
    obtain ⟨k, hk, rfl⟩ := onHost_eq_error.1 h
    exact ⟨⟨refl _, rfl, (hx.error hk).1, rfl⟩, (hx.error hk).2⟩

theorem onFrame_within [IsPreorder Host H] {x : Action Frame α} (hx : Within Frame.SameBody E x) :
    Within (Stays H) E (onFrame x) where
  ok h := by
    obtain ⟨g, hg, rfl⟩ := onFrame_eq_ok.1 h
    exact ⟨hx.ok hg, rfl, refl _, rfl⟩
  error h := by
    obtain ⟨g, hg, rfl⟩ := onFrame_eq_error.1 h
    exact ⟨⟨(hx.error hg).1, rfl, refl _, rfl⟩, (hx.error hg).2⟩

end State

/-- No operation on integers crashes: a division by zero is refused before. -/
theorem IntOp.apply_errs (op : IntOp) (a b : Int32) :
    ErrsWithin Failure.IsFault (op.apply a b) := by
  -- Quotient and remainder pass the same check.
  have hdivide (f : Int32 → Int32 → Int32) :
      ErrsWithin Failure.IsFault (do apply.checkDivision a b; apply.divide f a b) := by
    unfold apply.checkDivision apply.divide
    by_cases hb : b = 0
    · rw [if_pos hb]
      exact .error trivial
    · rw [if_neg hb, if_neg hb]
      exact .bind (.ite (fun _ => .error trivial) fun _ => .ok _) fun _ _ => .ok _
  cases op with
  | div => exact hdivide (· / ·)
  | rem => exact hdivide (· % ·)
  | shl | shr => exact .ite (fun _ => .error trivial) fun _ => .ok _
  | _ => exact .ok _

namespace Machine

open State

/-- A heap that evolves and a fault that the machine finds are allowed. -/
structure Admits (H : Host → Host → Prop) (E : Failure → Prop) : Prop where
  heap : ∀ h k c, Heap.Evolves h k → H ⟨h, c⟩ ⟨k, c⟩
  fault : ∀ e, e.IsFault → E e

/-- What the machine itself does is allowed, and the native functions of `m` leave the host as
    `H` allows and fail in ways of their own only if `E` allows it. -/
structure Obeys (m : Machine) (H : Host → Host → Prop) (E : Failure → Prop) : Prop
    extends Admits H E where
  native : ∀ n, some n ∈ m.natives → ∀ args, Within H (fun e => e.IsForeign → E e) (n.call args)

variable {m : Machine} {H : Host → Host → Prop} {E : Failure → Prop} {α : Type}
variable [IsPreorder Host H]

namespace Admits

variable (ha : Admits H E)
include ha

theorem onFrame {x : Action Frame α} (hx : Within Frame.SameBody Failure.IsFault x) :
    Within (Stays H) E (State.onFrame x) :=
  onFrame_within (hx.mono (fun _ _ h => h) ha.fault)

theorem push (c : Cell) : Within (Stays H) E (State.push c) :=
  ha.onFrame (Frame.push_within c)

theorem pop : Within (Stays H) E State.pop :=
  ha.onFrame Frame.pop_within

theorem popInt : Within (Stays H) E State.popInt :=
  ha.onFrame Frame.popInt_within

theorem popPtr : Within (Stays H) E State.popPtr :=
  ha.onFrame Frame.popPtr_within

theorem branch (here : Nat) (offset : Int16) : Within (Stays H) E (Machine.branch here offset) :=
  ha.onFrame (Frame.jump_within _)

omit [IsPreorder Host H] in
theorem onHeap {x : Action Heap α} (hx : Within Heap.Evolves Failure.IsFault x) :
    Within (Stays H) E (State.onHeap x) := by
  refine onHost_within ⟨fun {s a t} h => ?_, fun {s e t} h => ?_⟩
  · obtain ⟨k, hk, rfl⟩ := Host.onHeap_eq_ok.1 h
    exact ha.heap _ k _ (hx.ok hk)
  · obtain ⟨k, hk, rfl⟩ := Host.onHeap_eq_error.1 h
    exact ⟨ha.heap _ k _ (hx.error hk).1, ha.fault e (hx.error hk).2⟩

theorem ofHeap {f : Heap → Except Failure α} (hf : ∀ h, ErrsWithin Failure.IsFault (f h)) :
    Within (Stays H) E (State.ofHeap f) := by
  refine onHost_within ⟨fun {s a t} h => ?_, fun {s e t} h => ?_⟩ <;>
    unfold Host.ofHeap at h <;> split at h <;> cases h
  · exact refl s
  · exact ⟨refl s, ha.fault e (hf _ e ‹_›)⟩

theorem ofResult {r : Except Failure α} (hr : ErrsWithin Failure.IsFault r) :
    Within (Stays H) E (Action.ofResult r) :=
  within_ofResult (hr.mono ha.fault)

theorem refuse {c : Fault.Cause} (hc : Failure.IsFault (.fault c)) :
    Within (Stays H) E (Action.fault c : Action State α) :=
  within_fault c (ha.fault _ hc)

end Admits

/-- The relation that allows a host to change in any way. -/
def AnyHost (_ _ : Host) : Prop :=
  True

instance : IsPreorder Host AnyHost where
  refl _ := trivial
  trans _ _ _ _ _ := trivial

theorem obeys_anyHost (m : Machine) : m.Obeys AnyHost fun _ => True where
  heap _ _ _ _ := trivial
  fault _ _ := trivial
  native _ _ _ := ⟨fun _ => trivial, fun _ => ⟨trivial, fun _ => trivial⟩⟩

/-! ## Calls -/

omit [IsPreorder Host H]

/-- A call succeeds exactly if the program has the function, the depth allows it, the
    function has room for its arguments and they are on the stack. -/
theorem call_eq_ok_iff {index : Nat} {s t : State} :
    m.call index s = .ok () t ↔ ∃ f args rest, m.program.functionPool[index]? = some f ∧
      m.atDepthLimit s.callers.depth = false ∧ f.args ≤ f.vars ∧ args.length = f.args.toNat ∧
      s.frame.stack = args.reverse ++ rest ∧
      t = { s with
        frame := Frame.enter index f args
        callers := s.callers.push { s.frame with stack := rest } } := by
  simp only [call, fault_bind]
  constructor
  · intro h
    split at h
    · cases h
    rename_i hindex
    rw [bind_of_ok (get_apply s)] at h
    split at h
    · cases h
    rename_i hdepth
    rw [fetch_of_lt (by omega), bind_of_ok (ofResult_ok _ _)] at h
    split at h
    · -- Too few variables: a cell is taken off, but then the call is refused.
      obtain ⟨_, _, _, ⟨⟩⟩ := bind_eq_ok.1 h
    rename_i hvars
    obtain ⟨args, u, hargs, henter⟩ := bind_eq_ok.1 h
    obtain ⟨g, hg, rfl⟩ := onFrame_eq_ok.1 hargs
    obtain ⟨hlen, hstack, hg'⟩ := Frame.popArgs_eq_ok hg
    cases henter
    exact ⟨_, args, g.stack, Array.getElem?_eq_getElem _, eq_false_of_ne_true hdepth,
      UInt16.not_lt.1 hvars, hlen, hstack, by rw [← hg']⟩
  · rintro ⟨f, args, rest, hf, hdepth, hvars, hlen, hstack, rfl⟩
    obtain ⟨hindex, rfl⟩ := Array.getElem?_eq_some_iff.1 hf
    have hargs : onFrame (Frame.popArgs m.program.functionPool[index].args.toNat) s =
        .ok args { s with frame := { s.frame with stack := rest } } :=
      onFrame_eq_ok.2 ⟨_, hlen ▸ Frame.popArgs_of_stack hstack, rfl⟩
    rw [if_neg (by omega), bind_of_ok (get_apply s), if_neg (ne_true_of_eq_false hdepth),
      fetch_of_lt hindex, bind_of_ok (ofResult_ok _ _), if_neg (UInt16.not_lt.2 hvars),
      bind_of_ok hargs]
    rfl

/-- A call that fails has done no more than take cells off the stack. -/
theorem call_eq_error [IsPreorder Host H] (ha : Admits H E) {index : Nat} {s t : State}
    {e : Failure} (h : m.call index s = .error e t) : Stays H s t ∧ E e := by
  simp only [call, fault_bind] at h
  split at h
  · exact (ha.refuse (by trivial)).error h
  rename_i hindex
  rw [bind_of_ok (get_apply s)] at h
  split at h
  · exact (ha.refuse (by trivial)).error h
  rw [fetch_of_lt (by omega), bind_of_ok (ofResult_ok _ _)] at h
  split at h
  · exact (ha.pop.bind fun _ => ha.refuse (by trivial)).error h
  · rcases bind_eq_error.1 h with h | ⟨args, u, -, ⟨⟩⟩
    exact (ha.onFrame (Frame.popArgs_within _)).error h

/-- A native call is prepared exactly if the program has the entry, its arguments are
    on the stack and there is a function in its slot. -/
theorem prepareNative_eq_ok_iff {index : Nat} {s t : State} {c : Call} :
    m.prepareNative index s = .ok c t ↔ ∃ ref rest, m.program.nativePool[index]? = some ref ∧
      c.slot = ref.slot.toNat ∧ m.natives[ref.slot.toNat]? = some (some c.native) ∧
      c.args.length = ref.args.toNat ∧ s.frame.stack = c.args.reverse ++ rest ∧
      t = { s with frame := { s.frame with stack := rest } } := by
  simp only [prepareNative, fault_bind]
  constructor
  · intro h
    split at h
    · cases h
    have hindex : index < m.program.nativePool.size := by omega
    rw [fetch_of_lt hindex, bind_of_ok (ofResult_ok _ _)] at h
    obtain ⟨args, u, hargs, hcall⟩ := bind_eq_ok.1 h
    obtain ⟨g, hg, rfl⟩ := onFrame_eq_ok.1 hargs
    obtain ⟨hlen, hstack, hg'⟩ := Frame.popArgs_eq_ok hg
    rcases hslot : m.natives[m.program.nativePool[index].slot.toNat]? with _ | _ | native <;>
      rw [hslot] at hcall <;> cases hcall
    exact ⟨_, g.stack, Array.getElem?_eq_getElem _, rfl, hslot, hlen, hstack, by rw [← hg']⟩
  · rintro ⟨ref, rest, href, hslot, hnative, hlen, hstack, rfl⟩
    obtain ⟨hindex, rfl⟩ := Array.getElem?_eq_some_iff.1 href
    obtain ⟨slot, native, args⟩ := c
    obtain rfl : slot = _ := hslot
    have hargs : onFrame (Frame.popArgs m.program.nativePool[index].args.toNat) s =
        .ok args { s with frame := { s.frame with stack := rest } } :=
      onFrame_eq_ok.2 ⟨_, hlen ▸ Frame.popArgs_of_stack hstack, rfl⟩
    rw [if_neg (by omega), fetch_of_lt hindex, bind_of_ok (ofResult_ok _ _), bind_of_ok hargs,
      hnative]
    rfl

/-- A failure that a call passes on: a native function's own, or the fault it is made. -/
theorem nativeFailure_of (hE : ∀ e, e.IsFault → E e) {e : Failure} (he : e.IsForeign → E e)
    (slot : Nat) : E (nativeFailure slot e) := by
  cases e with
  | fault c =>
    by_cases hc : Failure.IsFault (.fault c)
    · exact hE _ hc
    · exact he (Failure.isForeign_of_not_isFault hc)
  | refused reason => exact hE _ trivial
  | crash => exact he trivial

theorem Call.perform_within (ho : m.Obeys H E) {c : Call} (hc : some c.native ∈ m.natives) :
    Within (Stays H) E c.perform where
  ok := by
    intro s u t h
    unfold perform at h
    cases hcall : c.native.call c.args s.host <;> simp only [hcall] at h <;> cases h
    exact ⟨⟨rfl, rfl, rfl⟩, rfl, (ho.native _ hc _).ok hcall, rfl⟩
  error := by
    intro s e t h
    unfold perform at h
    cases hcall : c.native.call c.args s.host <;> simp only [hcall] at h <;> cases h
    obtain ⟨hhost, he⟩ := (ho.native _ hc _).error hcall
    exact ⟨⟨refl _, rfl, hhost, rfl⟩, nativeFailure_of ho.fault he c.slot⟩

/-! ## The other instructions -/

section

variable [IsPreorder Host H]

theorem loadCell_errs (kind : CellKind) (p : Addr) (h : Heap) :
    ErrsWithin Failure.IsFault (loadCell kind p h) := by
  cases kind with
  | int => exact Heap.loadInt_errs.isFault.bind fun _ _ => .ok _
  | ptr => exact Heap.loadPtr_errs.isFault.bind fun _ _ => .ok _
  | char => exact Heap.loadChar_errs.isFault.bind fun _ _ => .ok _

/-- The parts of instructions stay in their frame. -/
theorem Admits.composes (ha : Admits H E) : Composes (Within (Stays H) E) where
  pure := within_pure
  bind := Within.bind
  fault _ := ha.refuse
  push := ha.push
  pop := ha.pop
  popInt := ha.popInt
  popPtr := ha.popPtr
  getLocal k := ha.onFrame (Frame.getLocal_within k)
  setLocal k c := ha.onFrame (Frame.setLocal_within k c)
  popArgs k := ha.onFrame (Frame.popArgs_within k)
  apply op a b := ha.ofResult (op.apply_errs a b)
  loadCell kind p := ha.ofHeap (loadCell_errs kind p)
  loadString _ := ha.ofHeap fun _ => Heap.loadString_errs.isFault
  arrayLength _ := ha.ofHeap fun _ => Heap.arrayLength_errs.isFault
  arrayElement _ _ := ha.ofHeap fun _ => Heap.arrayElement_errs.isFault
  storeInt p n := ha.onHeap (Heap.storeInt_within p n)
  storePtr p q := ha.onHeap (Heap.storePtr_within p q)
  storeChar p b := ha.onHeap (Heap.storeChar_within p b)
  allocArray n k := ha.onHeap (Heap.allocArray_within (Nat.le_of_lt_succ k.toNat_lt) n)

/-- Every instruction but a call stays in its frame, if native calls do. -/
theorem Admits.perform_within (ha : Admits H E) (i : Instr) (hi : ∀ index, i ≠ .call index)
    (hnative : ∀ index, i = .callNative index →
      Within (Stays H) E (m.prepareNative index.toNat >>= Call.perform)) :
    Within (Stays H) E (m.perform i) :=
  ha.composes.perform (fun _ offset => within_get.bind fun s => ha.branch s.last offset)
    (fun index h => absurd h (hi index)) hnative
    fun size _ => ha.onHeap (Heap.alloc_within (Heap.toNat_le_maxBlock size))

theorem nativeCall_within (ho : m.Obeys H E) (index : Nat) :
    Within (Stays H) E (m.prepareNative index >>= Call.perform) := by
  refine (ho.composes.prepareNative index).bind_of fun c ⟨s, t, hc⟩ => ?_
  -- Only functions of the machine's own table are ever prepared.
  obtain ⟨ref, rest, -, -, hslot, -⟩ := prepareNative_eq_ok_iff.1 hc
  exact Call.perform_within ho (Array.mem_of_getElem? hslot)

theorem perform_within (ho : m.Obeys H E) (i : Instr) (hi : ∀ index, i ≠ .call index) :
    Within (Stays H) E (m.perform i) :=
  ho.toAdmits.perform_within i hi fun index _ => nativeCall_within ho index.toNat

/-- A return needs a stack with one cell, which it gives to the caller; without a
    caller the run ends. -/
theorem leave_eq_ok {s t : State} {r : Option Cell} (h : leave s = .ok r t) :
    ∃ v, s.frame.stack = [v] ∧
      (s.callers = .empty ∧ r = some v ∧ t = { s with frame := { s.frame with stack := [] } } ∨
        ∃ caller callers, s.callers = callers.push caller ∧ r = none ∧
          t = { s with
            frame := { caller with stack := v :: caller.stack }
            callers := callers }) := by
  simp only [leave, fault_bind] at h
  obtain ⟨v, u, hpop, h⟩ := bind_eq_ok.1 h
  obtain ⟨g, hg, rfl⟩ := onFrame_eq_ok.1 hpop
  obtain ⟨hstack, hg'⟩ := Frame.pop_eq_ok hg
  rw [bind_of_ok (get_apply _)] at h
  split at h
  · cases h
  rename_i hleft
  have hempty : g.stack = [] := List.eq_nil_of_length_eq_zero (Decidable.not_not.1 hleft)
  rw [hempty] at hstack hg'
  refine ⟨v, hstack, ?_⟩
  unfold resume at h
  cases hcallers : s.callers.pop? with
  | none =>
    simp only [hcallers] at h
    cases h
    exact .inl ⟨CallStack.pop?_eq_none hcallers, rfl, by rw [← hg']⟩
  | some p =>
    simp only [hcallers] at h
    cases h
    exact .inr ⟨p.1, p.2, CallStack.eq_push_of_pop? hcallers, rfl, rfl⟩

theorem leave_eq_error (ha : Admits H E) {s t : State} {e : Failure} (h : leave s = .error e t) :
    Stays H s t ∧ E e := by
  simp only [leave, fault_bind] at h
  rcases bind_eq_error.1 h with h | ⟨v, u, hpop, h⟩
  · exact ha.pop.error h
  rw [bind_of_ok (get_apply u)] at h
  split at h
  · cases h
    exact ⟨ha.pop.ok hpop, ha.fault _ trivial⟩
  · -- Resuming a caller does not fail.
    unfold resume at h
    cases hcallers : u.callers.pop? <;> simp only [hcallers] at h <;> cases h

end

/-! ## Fetching -/

theorem fetchInstr_outside {s : State} (h : s.frame.pc < 0 ∨ s.frame.code.size ≤ s.frame.pc) :
    fetchInstr s =
      .error (.fault (.pcOutside s.frame.pc s.frame.func s.frame.code.size)) s := by
  rw [fetchInstr, if_pos h]

theorem fetchInstr_inside {s : State} {k : Nat} (hpc : s.frame.pc = k)
    (hk : k < s.frame.code.size) :
    fetchInstr s = onFrame Instr.decode { s with last := k } := by
  rw [fetchInstr, if_neg (by omega), hpc]
  rfl

theorem inside_or_outside (f : Frame) :
    (f.pc < 0 ∨ f.code.size ≤ f.pc) ∨ ∃ k : Nat, f.pc = k ∧ k < f.code.size := by
  by_cases h : f.pc < 0 ∨ f.code.size ≤ f.pc
  · exact .inl h
  · exact .inr ⟨f.pc.toNat, by omega, by omega⟩

/-- A fetch that succeeds has found an instruction at the address it notes, and moved
    the address past it. -/
theorem fetchInstr_eq_ok {s t : State} {i : Instr} (h : fetchInstr s = .ok i t) :
    ∃ (k : Nat) (f : Frame), s.frame.pc = k ∧ Instr.decode s.frame = .ok i f ∧
      f = { s.frame with pc := f.pc } ∧ t = { s with frame := f, last := k } := by
  rcases inside_or_outside s.frame with hout | ⟨k, hpc, hk⟩
  · rw [fetchInstr_outside hout] at h
    cases h
  · rw [fetchInstr_inside hpc hk] at h
    obtain ⟨f, hf, rfl⟩ := onFrame_eq_ok.1 h
    exact ⟨k, f, hpc, hf, (Instr.decode_onlyMoves hpc hk).ok hf, rfl⟩

/-! ## Steps -/

/-- `s` is about to call the function `f`, at `index` in the program: the call is the
    instruction at `k`, and `args` are on the stack, the last one on top. -/
structure AtCall (m : Machine) (s : State) (k index : Nat) (f : Function)
    (args rest : List Cell) : Prop where
  pc : s.frame.pc = k
  code : WordInstrAt s.frame.code k .invokestatic index
  function : m.program.functionPool[index]? = some f
  arity : args.length = f.args.toNat
  stack : s.frame.stack = args.reverse ++ rest

/-- `s` is about to call the native function `native`, through the entry `ref` of the
    program. -/
structure AtNativeCall (m : Machine) (s : State) (k index : Nat) (ref : NativeRef)
    (native : Native) (args rest : List Cell) : Prop where
  pc : s.frame.pc = k
  code : WordInstrAt s.frame.code k .invokenative index
  entry : m.program.nativePool[index]? = some ref
  slot : m.natives[ref.slot.toNat]? = some (some native)
  arity : args.length = ref.args.toNat
  stack : s.frame.stack = args.reverse ++ rest

/-- `s` is about to return `v`: the return is the instruction at `k`. -/
structure AtReturn (s : State) (k : Nat) (v : Cell) : Prop where
  pc : s.frame.pc = k
  code : s.frame.code[k]? = some Opcode.ret.byte
  stack : s.frame.stack = [v]

/-- The frame in which `s` is suspended while a call at `k` runs: behind the call, and
    without the arguments. -/
def suspended (s : State) (k : Nat) (rest : List Cell) : Frame :=
  { s.frame with pc := k + 3, stack := rest }

/-- The state in which a function that `s` calls starts. -/
def entered (s : State) (k index : Nat) (f : Function) (args rest : List Cell) : State where
  frame := Frame.enter index f args
  callers := s.callers.push (suspended s k rest)
  host := s.host
  last := k

/-- What a step that succeeds did. -/
inductive Moved (m : Machine) (H : Host → Host → Prop) (s : State) : Option Cell → State → Prop
  /-- It stayed in its frame. -/
  | stay {k : Nat} {t : State} : s.frame.pc = k → Stays H { s with last := k } t →
    Moved m H s none t
  /-- It entered a function. -/
  | enter {k index : Nat} {f : Function} {args rest : List Cell} :
    AtCall m s k index f args rest → m.atDepthLimit s.callers.depth = false → f.args ≤ f.vars →
      Moved m H s none (entered s k index f args rest)
  /-- It went back to the caller. -/
  | back {k : Nat} {v : Cell} {caller : Frame} {callers : CallStack} :
    AtReturn s k v → s.callers = callers.push caller →
      Moved m H s none ⟨{ caller with stack := v :: caller.stack }, callers, s.host, k⟩
  /-- It ended the run. -/
  | done {k : Nat} {v : Cell} {t : State} :
    AtReturn s k v → s.callers = .empty → Stays H { s with last := k } t → Moved m H s (some v) t

theorem fetchInstr_of_decode {s : State} {k : Nat} {i : Instr} {f : Frame} (hpc : s.frame.pc = k)
    (hk : k < s.frame.code.size) (h : Instr.decode s.frame = .ok i f) :
    fetchInstr s = .ok i { s with frame := f, last := k } := by
  rw [fetchInstr_inside hpc hk]
  exact onFrame_eq_ok.2 ⟨f, h, rfl⟩

theorem exec_of_ne_ret {i : Instr} (hi : i ≠ .ret) :
    m.exec i = do
      m.perform i
      return none := by
  cases i with
  | ret => exact absurd rfl hi
  | _ => rfl

/-- What a step makes of a call: it enters the function, unless the depth or the
    number of variables forbids it. -/
theorem step_call {s t : State} {k index : Nat} {f : Function} {args rest : List Cell}
    (hs : AtCall m s k index f args rest) {r : Option Cell} :
    m.step s = .ok r t ↔ m.atDepthLimit s.callers.depth = false ∧ f.args ≤ f.vars ∧ r = none ∧
      t = entered s k index f args rest := by
  obtain ⟨i, rfl⟩ := hs.code.exists_word
  have hfetch := fetchInstr_of_decode hs.pc (Nat.lt_of_le_of_lt (Nat.le_add_right k 2) hs.code.lt)
    ((Instr.decode_eq_call_iff hs.pc).2 ⟨hs.code, rfl⟩)
  rw [step, bind_of_ok hfetch, exec_of_ne_ret (i := .call i) nofun, bind_eq_ok]
  constructor
  · rintro ⟨_, u, hcall, ⟨⟩⟩
    obtain ⟨f', args', rest', hf', hdepth, hvars, harity, hstack, rfl⟩ := call_eq_ok_iff.1 hcall
    -- The function and the arguments that the call found are the given ones.
    obtain rfl : f = f' := Option.some.inj (hs.function.symm.trans hf')
    obtain ⟨hargs, rfl⟩ := List.append_inj (hs.stack.symm.trans hstack)
      (by rw [List.length_reverse, List.length_reverse, hs.arity, harity])
    obtain rfl := List.reverse_inj.1 hargs
    exact ⟨hdepth, hvars, rfl, rfl⟩
  · rintro ⟨hdepth, hvars, rfl, rfl⟩
    exact ⟨(), _, call_eq_ok_iff.2
      ⟨f, args, rest, hs.function, hdepth, hvars, hs.arity, hs.stack, rfl⟩, rfl⟩

/-- What a step makes of a native call: the result goes on what the arguments were on. -/
theorem step_callNative {s : State} {k index : Nat} {ref : NativeRef} {native : Native}
    {args rest : List Cell} (hs : AtNativeCall m s k index ref native args rest) :
    m.step s = match native.call args s.host with
      | .ok v host =>
        .ok none ⟨{ s.frame with pc := k + 3, stack := v :: rest }, s.callers, host, k⟩
      | .error e host =>
        .error (nativeFailure ref.slot.toNat e)
          ⟨{ s.frame with pc := k + 3, stack := rest }, s.callers, host, k⟩ := by
  obtain ⟨i, rfl⟩ := hs.code.exists_word
  have hfetch := fetchInstr_of_decode hs.pc (Nat.lt_of_le_of_lt (Nat.le_add_right k 2) hs.code.lt)
    ((Instr.decode_eq_callNative_iff hs.pc).2 ⟨hs.code, rfl⟩)
  have hprepare : m.prepareNative i.toNat ⟨{ s.frame with pc := k + 3 }, s.callers, s.host, k⟩ =
      .ok ⟨ref.slot.toNat, native, args⟩
        ⟨{ s.frame with pc := k + 3, stack := rest }, s.callers, s.host, k⟩ :=
    prepareNative_eq_ok_iff.2 ⟨ref, rest, hs.entry, rfl, hs.slot, hs.arity, hs.stack, rfl⟩
  rw [step, bind_of_ok hfetch, exec_of_ne_ret (i := .callNative i) nofun, perform, bind_assoc,
    bind_of_ok hprepare]
  cases hcall : native.call args s.host with
  | ok v host =>
    refine bind_of_ok (a := ()) ?_
    rw [Call.perform]
    simp only [hcall]
    rfl
  | error e host =>
    refine bind_of_error ?_
    rw [Call.perform]
    simp only [hcall]

/-- Every step that succeeds is of one of the four kinds. -/
theorem step_moved [IsPreorder Host H] (ho : m.Obeys H E) {s t : State} {r : Option Cell}
    (h : m.step s = .ok r t) : Moved m H s r t := by
  obtain ⟨i, u, hfetch, hexec⟩ := bind_eq_ok.1 h
  obtain ⟨k, f, hpc, hdecode, hf, rfl⟩ := fetchInstr_eq_ok hfetch
  have hbody : s.frame.SameBody f := by
    rw [hf]
    exact ⟨rfl, rfl, rfl⟩
  have hmoved : Stays H { s with last := k } { s with frame := f, last := k } :=
    ⟨hbody, rfl, refl _, rfl⟩
  -- Returns and calls are the instructions that leave the frame.
  by_cases hret : i = .ret
  · subst hret
    obtain ⟨hcode, hf'⟩ := (Instr.decode_eq_ret_iff hpc).1 hdecode
    obtain ⟨v, hstack, ⟨hcallers, rfl, rfl⟩ | ⟨caller, callers, hcallers, rfl, rfl⟩⟩ :=
      leave_eq_ok hexec
    · rw [hf'] at hstack
      exact .done ⟨hpc, hcode, hstack⟩ hcallers
        ⟨⟨hbody.func, hbody.code, hbody.vars⟩, rfl, refl _, rfl⟩
    · rw [hf'] at hstack
      exact .back ⟨hpc, hcode, hstack⟩ hcallers
  · rw [exec_of_ne_ret hret] at hexec
    obtain ⟨_, u, hperform, ⟨⟩⟩ := bind_eq_ok.1 hexec
    by_cases hcall : ∃ index, i = .call index
    · obtain ⟨index, rfl⟩ := hcall
      obtain ⟨hcode, hf'⟩ := (Instr.decode_eq_call_iff hpc).1 hdecode
      obtain ⟨f', args, rest, hfunction, hdepth, hvars, harity, hstack, rfl⟩ :=
        call_eq_ok_iff.1 hperform
      rw [hf'] at hstack
      rw [hf']
      exact .enter ⟨hpc, hcode, hfunction, harity, hstack⟩ hdepth hvars
    · have hstay := perform_within ho i fun index hi => hcall ⟨index, hi⟩
      exact .stay hpc (IsTrans.trans _ _ _ hmoved (hstay.ok hperform))

/-- Without an instruction at its address, a step fails and changes nothing. -/
theorem step_outside {s : State} (h : s.frame.pc < 0 ∨ s.frame.code.size ≤ s.frame.pc) :
    m.step s = .error (.fault (.pcOutside s.frame.pc s.frame.func s.frame.code.size)) s :=
  bind_of_error (fetchInstr_outside h)

/-- An instruction that fails stays in its frame, if native calls do. -/
theorem Admits.exec_eq_error [IsPreorder Host H] (ha : Admits H E) {i : Instr}
    (hnative : ∀ index, i = .callNative index →
      Within (Stays H) E (m.prepareNative index.toNat >>= Call.perform))
    {s t : State} {e : Failure} (h : m.exec i s = .error e t) : Stays H s t ∧ E e := by
  by_cases hret : i = .ret
  · subst hret
    exact leave_eq_error ha h
  rw [exec_of_ne_ret hret] at h
  rcases bind_eq_error.1 h with hperform | ⟨_, _, _, ⟨⟩⟩
  by_cases hcall : ∃ index, i = .call index
  · obtain ⟨index, rfl⟩ := hcall
    exact call_eq_error ha hperform
  · exact (ha.perform_within i (fun index hi => hcall ⟨index, hi⟩) hnative).error hperform

/-- A step that fails in an instruction has noted its address and stays in its frame. -/
theorem step_error_inside [IsPreorder Host H] (ho : m.Obeys H E) {s t : State} {e : Failure}
    {k : Nat} (hpc : s.frame.pc = k) (hk : k < s.frame.code.size) (h : m.step s = .error e t) :
    Stays H { s with last := k } t ∧ E e := by
  have hdecode := Instr.decode_onlyMoves hpc hk
  rcases bind_eq_error.1 h with hfetch | ⟨i, u, hfetch, hexec⟩ <;>
    rw [fetchInstr_inside hpc hk] at hfetch
  · obtain ⟨f, hf, rfl⟩ := onFrame_eq_error.1 hfetch
    obtain ⟨hf', he⟩ := hdecode.error hf
    refine ⟨⟨?_, rfl, refl _, rfl⟩, ho.fault e he⟩
    rw [hf']
    exact ⟨rfl, rfl, rfl⟩
  · obtain ⟨f, hf, rfl⟩ := onFrame_eq_ok.1 hfetch
    obtain ⟨hstay, he⟩ :=
      ho.toAdmits.exec_eq_error (fun index _ => nativeCall_within ho index.toNat) hexec
    have hbody : s.frame.SameBody f := by
      rw [hdecode.ok hf]
      exact ⟨rfl, rfl, rfl⟩
    have hmoved : Stays H { s with last := k } { s with frame := f, last := k } :=
      ⟨hbody, rfl, refl _, rfl⟩
    exact ⟨IsTrans.trans _ _ _ hmoved hstay, he⟩

/-- A step that fails stays in its frame and fails for a reason in `E`. -/
theorem step_error [IsPreorder Host H] (ho : m.Obeys H E) {s t : State} {e : Failure}
    (h : m.step s = .error e t) : E e ∧ ∃ k, Stays H { s with last := k } t := by
  rcases inside_or_outside s.frame with hout | ⟨k, hpc, hk⟩
  · rw [step_outside hout] at h
    cases h
    exact ⟨ho.fault _ trivial, s.last, refl s⟩
  · obtain ⟨hstay, he⟩ := step_error_inside ho hpc hk h
    exact ⟨he, k, hstay⟩

end Machine

end CZero
