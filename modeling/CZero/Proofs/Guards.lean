import CZero.Proofs.CallChain
import CZero.Proofs.Heap.Limit
import CZero.Proofs.Safety

/-!
# Guards only cut runs short

A machine can be guarded: by a limit on the bytes that the program asks for, and by a
bound on the depth of its calls. The guards have no other effect than to stop a run that
would pass one of them. Such a run is compared with the one of the same machine without
guards. They go through the same states, the limit itself aside, until the free run
passes a guard; there the guarded run stops, by the fault of that guard.

The two guards are dealt with one after the other. A bound on the depth makes a
difference to one kind of step only, a call that is as deep as the bound
(`step_withDepth`, `step_deepCall`). A limit on the heap cuts every step short in the
sense of `CutShort` (`step_cutShort`).
-/

namespace CZero

open CZero.Action HeapState

instance : HeapState State where
  heap s := s.host.heap
  limited L s := { s with host := limited L s.host }

namespace State

variable {α : Type} {L : Int}

theorem onFrame_cutShort (x : Action Frame α) : CutShort L (onFrame x) := by
  refine cutShort_of_same ?_
  rintro ⟨frame, callers, host, last⟩
  cases hx : x frame with
  | ok a g =>
    refine ⟨⟨g, callers, host, last⟩, rfl, rfl, .inl ⟨a, ?_, ?_⟩⟩ <;>
      simp only [onFrame, limited, hx]
  | error e g =>
    refine ⟨⟨g, callers, host, last⟩, rfl, rfl, .inr ⟨e, ?_, ?_⟩⟩ <;>
      simp only [onFrame, limited, hx]

theorem onHost_cutShort {x : Action Host α} (hx : CutShort L x) : CutShort L (onHost x) := by
  refine hx.lift (·.host) (fun s h => { s with host := h }) (fun _ => rfl) (fun _ _ => rfl)
    (fun _ => rfl) (fun _ _ => rfl) fun s => ?_
  cases hs : x s.host <;> simp only [onHost, hs] <;> rfl

theorem onHeap_cutShort {x : Action Heap α} (hx : CutShort L x) : CutShort L (onHeap x) :=
  onHost_cutShort (Host.onHeap_cutShort hx)

theorem ofHeap_cutShort {f : Heap → Except Failure α} (hf : Heap.OfBytes f) :
    CutShort L (ofHeap f) :=
  onHost_cutShort (Native.reads_ofHeap hf).cutShort

theorem push_cutShort (c : Cell) : CutShort L (push c) :=
  onFrame_cutShort _

theorem pop_cutShort : CutShort L pop :=
  onFrame_cutShort _

theorem popInt_cutShort : CutShort L popInt :=
  onFrame_cutShort _

theorem popPtr_cutShort : CutShort L popPtr :=
  onFrame_cutShort _

end State

/-- What is left of a run, with a limit on its heap. -/
def Residue.limited (L : Int) (r : Residue) : Residue :=
  { r with host := HeapState.limited L r.host }

namespace Machine

open State

variable {m : Machine} {L D : Int} {s t : State}

/-! ## Steps under a limit on the heap -/

theorem loadCell_ofBytes (kind : CellKind) (p : Addr) : Heap.OfBytes (loadCell kind p) := by
  cases kind with
  | int | ptr | char => exact Heap.ofBytes_of_blank fun _ => rfl

theorem branch_cutShort (offset : Int16) :
    CutShort L (get >>= fun s : State => branch s.last offset) :=
  .get_bind (fun _ => onFrame_cutShort _) fun _ => rfl

theorem enter_cutShort (callee : Frame) : CutShort L (enter callee) := by
  refine cutShort_of_same ?_
  rintro ⟨frame, callers, host, last⟩
  exact ⟨⟨callee, callers.push frame, host, last⟩, rfl, rfl, .inl ⟨(), rfl, rfl⟩⟩

theorem call_cutShort (index : Nat) : CutShort L (m.call index) := by
  simp only [call, fault_bind]
  -- The depth is the only thing that a call looks up, and a limit does not change it.
  refine .ite (cutShort_fault _) (.get_bind (fun s => .ite (cutShort_fault _) ?_) fun _ => rfl)
  refine (cutShort_ofResult _).bind fun f => .ite ?_ ?_
  · exact pop_cutShort.bind fun _ => cutShort_fault _
  · exact (onFrame_cutShort _).bind fun args => enter_cutShort _

theorem Call.perform_of_ok {c : Call} {v : Cell} {host : Host}
    (h : c.native.call c.args s.host = .ok v host) :
    c.perform s =
      .ok () { s with frame := { s.frame with stack := v :: s.frame.stack }, host := host } := by
  simp only [perform, h]
  rfl

theorem Call.perform_of_error {c : Call} {e : Failure} {host : Host}
    (h : c.native.call c.args s.host = .error e host) :
    c.perform s = .error (nativeFailure c.slot e) { s with host := host } := by
  simp only [perform, h]

theorem Call.perform_cutShort {c : Call} (hc : CutShort L (c.native.call c.args)) :
    CutShort L c.perform where
  grows := by
    refine within_of_final (fun s => ?_) fun _ _ _ _ => trivial
    have huses := hc.grows.uses_endState s.host
    cases hr : c.native.call c.args s.host <;> rw [hr] at huses
    · rw [final, perform_of_ok hr]
      exact huses
    · rw [final, perform_of_error hr]
      exact huses
  cut s hs := by
    have hcut := hc.cut s.host ⟨hs.unlimited, hs.used⟩
    generalize hr : c.native.call c.args s.host = r at hcut
    generalize hr' : c.native.call c.args (limited L s.host) = r' at hcut
    cases hcut with
    | ok ht =>
      rw [perform_of_ok hr, perform_of_ok (s := limited L s) hr']
      exact .ok ⟨ht.unlimited, ht.used⟩
    | error ht =>
      rw [perform_of_error hr, perform_of_error (s := limited L s) hr']
      exact .error ⟨ht.unlimited, ht.used⟩
    | exceeded hover ht =>
      -- The fault of the limit is passed on as it is.
      rw [perform_of_error (s := limited L s) hr']
      refine .exceeded ?_ ht
      cases r
      · rw [perform_of_ok hr]
        exact hover
      · rw [perform_of_error hr]
        exact hover

theorem composes_cutShort (hL : 0 < L) : Composes (CutShort L) where
  pure := cutShort_pure
  bind := CutShort.bind
  fault c _ := cutShort_fault c
  push := push_cutShort
  pop := pop_cutShort
  popInt := popInt_cutShort
  popPtr := popPtr_cutShort
  getLocal _ := onFrame_cutShort _
  setLocal _ _ := onFrame_cutShort _
  popArgs _ := onFrame_cutShort _
  apply _ _ _ := cutShort_ofResult _
  loadCell kind p := ofHeap_cutShort (loadCell_ofBytes kind p)
  loadString p := ofHeap_cutShort (Heap.loadString_ofBytes p)
  arrayLength p := ofHeap_cutShort (Heap.arrayLength_ofBytes p)
  arrayElement p n := ofHeap_cutShort (Heap.arrayElement_ofBytes p n)
  storeInt p _ := onHeap_cutShort (Heap.store_cutShort p _)
  storePtr p _ := onHeap_cutShort (Heap.store_cutShort p _)
  storeChar p _ := onHeap_cutShort (Heap.store_cutShort p _)
  allocArray n k := onHeap_cutShort (Heap.allocArray_cutShort hL (Nat.le_of_lt_succ k.toNat_lt) n)

theorem perform_cutShort (hm : m.UsesLibrary) (hL : 0 < L) (i : Instr) :
    CutShort L (m.perform i) := by
  have hparts := composes_cutShort hL
  refine hparts.perform (fun _ => branch_cutShort) (fun index _ => call_cutShort index.toNat)
    (fun index _ => (hparts.prepareNative index.toNat).bind_of ?_)
    fun size _ => onHeap_cutShort (Heap.alloc_cutShort hL (Heap.toNat_le_maxBlock size))
  rintro c ⟨s, t, hc⟩
  -- Only functions of the machine's own table are ever prepared.
  obtain ⟨ref, rest, -, -, hslot, -⟩ := prepareNative_eq_ok_iff.1 hc
  have htable := hm c.native (Array.mem_of_getElem? hslot)
  exact Call.perform_cutShort ((Library.builds_of_mem_table htable c.args).cutShort hL)

theorem leave_cutShort : CutShort L leave := by
  simp only [leave, fault_bind]
  refine pop_cutShort.bind fun result =>
    .get_bind (fun s => .ite (cutShort_fault _) ?_) fun _ => rfl
  refine cutShort_of_same ?_
  rintro ⟨frame, callers, host, last⟩
  cases hcallers : callers.pop? with
  | none =>
    refine ⟨⟨frame, callers, host, last⟩, rfl, rfl, .inl ⟨some result, ?_, ?_⟩⟩ <;>
      simp only [resume, limited, hcallers]
  | some p =>
    refine ⟨⟨{ p.1 with stack := result :: p.1.stack }, p.2, host, last⟩, rfl, rfl,
      .inl ⟨none, ?_, ?_⟩⟩ <;> simp only [resume, limited, hcallers]

theorem fetchInstr_cutShort : CutShort L fetchInstr := by
  refine cutShort_of_same ?_
  rintro ⟨frame, callers, host, last⟩
  by_cases hout : frame.pc < 0 ∨ frame.code.size ≤ frame.pc
  · exact ⟨⟨frame, callers, host, last⟩, rfl, rfl, .inr ⟨_, if_pos hout, if_pos hout⟩⟩
  · cases hdecode : Instr.decode frame with
    | ok i g =>
      refine ⟨⟨g, callers, host, frame.pc.toNat⟩, rfl, rfl, .inl ⟨i, ?_, ?_⟩⟩ <;>
        simp only [fetchInstr, limited, if_neg hout, onFrame, hdecode]
    | error e g =>
      refine ⟨⟨g, callers, host, frame.pc.toNat⟩, rfl, rfl, .inr ⟨e, ?_, ?_⟩⟩ <;>
        simp only [fetchInstr, limited, if_neg hout, onFrame, hdecode]

/-- A step is cut short by a limit on the heap. -/
theorem step_cutShort (hm : m.UsesLibrary) (hL : 0 < L) : CutShort L m.step := by
  refine fetchInstr_cutShort.bind fun i => ?_
  by_cases hret : i = .ret
  · subst hret
    exact leave_cutShort
  · rw [exec_of_ne_ret hret]
    exact (perform_cutShort hm hL i).bind fun _ => cutShort_pure none

/-! ## Steps under a bound on the depth -/

/-- The machine with another bound on the depth of its calls. -/
def withDepth (m : Machine) (D : Int) : Machine :=
  { m with maxCallDepth := D }

@[simp] theorem program_withDepth (m : Machine) (D : Int) : (m.withDepth D).program = m.program :=
  rfl

theorem atDepthLimit_withDepth {depth : Nat} :
    (m.withDepth D).atDepthLimit depth = true ↔ 0 < D ∧ D ≤ depth := by
  rw [atDepthLimit, Bool.and_eq_true, decide_eq_true_iff, decide_eq_true_iff]
  rfl

/-- `s` is about to call a function of the program while `D` callers are suspended. -/
def AtDeepCall (m : Machine) (D : Int) (s : State) : Prop :=
  ∃ k index : Nat, s.frame.pc = k ∧ WordInstrAt s.frame.code k .invokestatic index ∧
    index < m.program.functionPool.size ∧ s.callers.depth = D

/-- What a call does once it has passed its guards. -/
def callFunction (m : Machine) (index : Nat) : Action State Unit := do
  let f ← Action.ofResult (fetch m.program.functionPool index)
  if f.vars < f.args then
    let _ ← pop
    Action.fault (.localIndex (f.args.toNat - 1) f.vars.toNat)
  let args ← onFrame (Frame.popArgs f.args.toNat)
  enter (Frame.enter index f args)

/-- A call passes its guards one after the other. -/
theorem call_eq (index : Nat) (s : State) :
    m.call index s = if m.program.functionPool.size ≤ index then
        .error (.fault (.functionIndex index)) s
      else if m.atDepthLimit s.callers.depth then .error (.fault (.callDepth m.maxCallDepth)) s
      else m.callFunction index s := by
  simp only [call, fault_bind]
  split
  · rfl
  · rw [bind_of_ok (get_apply s)]
    split
    · rfl
    · simp only [callFunction, fault_bind]

theorem call_withDepth {index : Nat}
    (h : m.program.functionPool.size ≤ index ∨ s.callers.depth < D) :
    (m.withDepth D).call index s = (m.withDepth 0).call index s := by
  rw [call_eq, call_eq, program_withDepth, program_withDepth]
  rcases h with hindex | hlt
  · rw [if_pos hindex, if_pos hindex]
  · have hfree (E : Int) (hE : E = D ∨ E = 0) :
        ¬(m.withDepth E).atDepthLimit s.callers.depth := by
      rw [atDepthLimit_withDepth]
      omega
    rw [if_neg (hfree D (.inl rfl)), if_neg (hfree 0 (.inr rfl))]
    rfl

theorem exec_call (index : UInt16) : m.exec (.call index) = do
    m.call index.toNat
    return none :=
  rfl

theorem exec_withDepth {i : Instr} (hi : ∀ index, i ≠ .call index) :
    (m.withDepth D).exec i = (m.withDepth 0).exec i := by
  cases i with
  | call index => exact absurd rfl (hi index)
  | _ => rfl

/-- A step that is no call at the bound does not see the bound. -/
theorem step_withDepth (hdepth : s.callers.depth ≤ D) (hcall : ¬m.AtDeepCall D s) :
    (m.withDepth D).step s = (m.withDepth 0).step s := by
  rw [step, step]
  cases hfetch : fetchInstr s with
  | error e t => rw [bind_of_error hfetch, bind_of_error hfetch]
  | ok i t =>
    rw [bind_of_ok hfetch, bind_of_ok hfetch]
    by_cases hi : ∃ index, i = .call index
    · -- This call has nothing to call, or it is not as deep as the bound.
      obtain ⟨index, rfl⟩ := hi
      obtain ⟨k, f, hpc, hdecode, hf, rfl⟩ := fetchInstr_eq_ok hfetch
      obtain ⟨hcode, -⟩ := (Instr.decode_eq_call_iff hpc).1 hdecode
      have hfree : m.program.functionPool.size ≤ index.toNat ∨ s.callers.depth < D := by
        by_contra hdeep
        rw [not_or, Nat.not_le, Int.not_lt] at hdeep
        exact hcall ⟨k, index.toNat, hpc, hcode, hdeep.1, Int.le_antisymm hdepth hdeep.2⟩
      have hcall := call_withDepth (s := { s with frame := f, last := k }) hfree
      rw [exec_call, exec_call]
      exact bind_congr_at hcall
    · rw [exec_withDepth fun index h => hi ⟨index, h⟩]

/-- A call at the bound is refused. -/
theorem step_deepCall (hD : 0 < D) (hcall : m.AtDeepCall D s) :
    ∃ k f, (m.withDepth D).step s =
      .error (.fault (.callDepth D)) { s with frame := f, last := k } := by
  obtain ⟨k, index, hpc, hcode, hindex, hdepth⟩ := hcall
  obtain ⟨i, rfl⟩ := hcode.exists_word
  have hfetch := fetchInstr_of_decode hpc (Nat.lt_of_le_of_lt (Nat.le_add_right k 2) hcode.lt)
    ((Instr.decode_eq_call_iff hpc).2 ⟨hcode, rfl⟩)
  have hlimit : (m.withDepth D).atDepthLimit s.callers.depth :=
    atDepthLimit_withDepth.2 ⟨hD, Int.le_of_eq hdepth.symm⟩
  refine ⟨k, { s.frame with pc := k + 3 }, ?_⟩
  rw [step, bind_of_ok hfetch, exec_call]
  refine bind_of_error ?_
  rw [call_eq, program_withDepth, if_neg (Nat.not_le.2 hindex), if_pos hlimit]
  rfl

/-! ## Runs -/

/-- A stage with a limit on the heap of its state. -/
def Stage.limited (L : Int) : Stage → Stage
  | .running s => .running (HeapState.limited L s)
  | .ended o s => .ended o (HeapState.limited L s)

theorem Stage.state_limited (L : Int) (g : Stage) :
    (g.limited L).state = HeapState.limited L g.state := by
  cases g with
  | running s | ended o s => rfl

theorem Stage.result?_limited (L : Int) (g : Stage) :
    (g.limited L).result? = g.result?.map fun (o, s) => (o, HeapState.limited L s) := by
  cases g with
  | running s | ended o s => rfl

/-- A step that is cut short leads to the same stage, or it ends the run by the fault of
    the limit. -/
theorem Stage.ofStep_of_cut {r r' : EStateM.Result Failure State (Option Cell)} (h : Cut L r r') :
    (Fits L (ofStep r).state ∧ ofStep r' = (ofStep r).limited L) ∨
      (L < used (ofStep r).state ∧ ∃ t, used t ≤ L ∧
        ofStep r' = .ended (.fault ⟨.heapLimit L, some ⟨t.frame.func, t.last⟩⟩) t) := by
  cases h with
  | @ok c t ht =>
    left
    cases c with
    | none => exact ⟨ht, rfl⟩
    | some c => exact ⟨ht, rfl⟩
  | @error e t ht =>
    left
    cases e with
    | fault c | refused reason | crash => exact ⟨ht, rfl⟩
  | @exceeded r t hover ht =>
    right
    refine ⟨?_, t, ht, rfl⟩
    rcases r with ⟨_ | c, u⟩ | ⟨e, u⟩ <;> exact hover

theorem Stage.ofStep_eq_running {r : EStateM.Result Failure State (Option Cell)} :
    ofStep r = .running t ↔ r = .ok none t := by
  rcases r with ⟨_ | c, u⟩ | ⟨e, u⟩ <;> simp [ofStep]

/-- In its first `n` steps, the run from `s` without guards keeps to the limit `L` and to
    the bound `D`: it has never asked for more than `L` bytes, and it never makes a call
    while `D` callers are suspended. -/
structure KeepsTo (m : Machine) (L D : Int) (s : State) (n : Nat) : Prop where
  heap : ∀ k ≤ n, used ((m.withDepth 0).stage s k).state ≤ L
  depth : ∀ k < n, ∀ u, (m.withDepth 0).stage s k = .running u → ¬m.AtDeepCall D u

theorem KeepsTo.mono {n k : Nat} (h : m.KeepsTo L D s n) (hk : k ≤ n) : m.KeepsTo L D s k where
  heap j hj := h.heap j (Nat.le_trans hj hk)
  depth j hj := h.depth j (Nat.lt_of_lt_of_le hj hk)

/-- After `n` steps, the runs from `s` without guards and with them are in the same
    state, the limit aside. -/
structure InStep (m : Machine) (L D : Int) (s : State) (n : Nat) : Prop where
  same : (m.withDepth D).stage (limited L s) n = ((m.withDepth 0).stage s n).limited L
  fits : Fits L ((m.withDepth 0).stage s n).state
  depth : ∀ u, (m.withDepth 0).stage s n = .running u → u.callers.depth ≤ D

section

variable (hm : m.UsesLibrary) (hL : 0 < L) (hD : 0 < D)
include hm hL hD

/-- One more step, if it is no call at the bound: the runs stay in step, or the free one
    has passed the limit and the guarded one ends. -/
theorem InStep.succ {n : Nat} (h : m.InStep L D s n)
    (hcall : ∀ u, (m.withDepth 0).stage s n = .running u → ¬m.AtDeepCall D u) :
    m.InStep L D s (n + 1) ∨
      (L < used ((m.withDepth 0).stage s (n + 1)).state ∧
        (∃ u, (m.withDepth 0).stage s n = .running u) ∧ ∃ t, used t ≤ L ∧
        (m.withDepth D).stage (limited L s) (n + 1) =
          .ended (.fault ⟨.heapLimit L, some ⟨t.frame.func, t.last⟩⟩) t) := by
  obtain ⟨hsame, hfits, hdepth⟩ := h
  cases hstage : (m.withDepth 0).stage s n with
  | ended o u =>
    -- Both runs have ended and stay where they are.
    have hfree := stage_of_ended hstage (Nat.le_succ n)
    rw [hstage] at hsame hfits
    exact .inl ⟨by rw [stage_of_ended hsame (Nat.le_succ n), hfree, Stage.limited],
      hfree ▸ hfits, fun w hw => nomatch hfree.symm.trans hw⟩
  | running u =>
    rw [hstage] at hsame hfits
    have hfree : (m.withDepth 0).stage s (n + 1) = .ofStep ((m.withDepth 0).step u) := by
      rw [stage, hstage, advance]
    have hguarded : (m.withDepth D).stage (limited L s) (n + 1) =
        .ofStep ((m.withDepth D).step (limited L u)) := by
      rw [stage, hsame, Stage.limited, advance]
    have hcut : Cut L ((m.withDepth 0).step u) ((m.withDepth D).step (limited L u)) := by
      rw [step_withDepth (s := limited L u) (hdepth u hstage) (hcall u hstage)]
      exact (step_cutShort (m := m.withDepth 0) hm hL).cut u hfits
    rcases Stage.ofStep_of_cut hcut with ⟨hfits', hsame'⟩ | ⟨hover, hend⟩
    · refine .inl ⟨by rw [hguarded, hfree, hsame'], hfree ▸ hfits', fun w hw => ?_⟩
      -- The guarded run made the same step, and it goes no deeper than its bound.
      have hstep : (m.withDepth D).step (limited L u) = .ok none (limited L w) := by
        rw [← Stage.ofStep_eq_running, hsame', ← hfree, hw]
        rfl
      exact depth_step (s := limited L u) (t := limited L w) hD (hdepth u hstage) hstep
    · rw [hfree, hguarded]
      exact .inr ⟨hover, ⟨u, rfl⟩, hend⟩

theorem inStep_of_keepsTo (hs : Fits L s) (hdepth : s.callers.depth ≤ D) {n : Nat}
    (h : m.KeepsTo L D s n) : m.InStep L D s n := by
  induction n with
  | zero =>
    refine ⟨rfl, hs, fun u hu => ?_⟩
    cases hu
    exact hdepth
  | succ n ih =>
    rcases (ih (h.mono (Nat.le_succ n))).succ hm hL hD (h.depth n (Nat.lt_succ_self n)) with
      hstep | ⟨hover, -⟩
    · exact hstep
    · exact absurd (h.heap (n + 1) (Nat.le_refl _)) (Int.not_le.2 hover)

/-- Where the run without guards passes one of them for the first time, the guarded run
    ends, by the fault of that guard. -/
theorem stops_of_not_keepsTo (hs : Fits L s) (hdepth : s.callers.depth ≤ D) {n : Nat}
    (h : ¬m.KeepsTo L D s n) : ∃ k < n, m.KeepsTo L D s k ∧ ∃ u c t,
      (m.withDepth 0).stage s k = .running u ∧ used t ≤ L ∧
      (m.withDepth D).stage (limited L s) (k + 1) =
        .ended (.fault ⟨c, some ⟨t.frame.func, t.last⟩⟩) t ∧
      ((m.AtDeepCall D u ∧ c = .callDepth D) ∨
        (L < used ((m.withDepth 0).stage s (k + 1)).state ∧ c = .heapLimit L)) := by
  -- The first step that passes a guard is the last one, or it is found by induction.
  induction n with
  | zero =>
    refine absurd ⟨fun k hk => ?_, fun k hk => nomatch hk⟩ h
    obtain rfl := Nat.le_zero.1 hk
    exact hs.used
  | succ n ih =>
    by_cases hn : m.KeepsTo L D s n
    swap
    · obtain ⟨k, hk, hkeeps⟩ := ih hn
      exact ⟨k, Nat.lt_succ_of_lt hk, hkeeps⟩
    refine ⟨n, Nat.lt_succ_self n, hn, ?_⟩
    have hstep := inStep_of_keepsTo hm hL hD hs hdepth hn
    by_cases hcall : ∃ u, (m.withDepth 0).stage s n = .running u ∧ m.AtDeepCall D u
    · -- The free run is about to pass the bound; the guarded one is in the same state.
      obtain ⟨u, hu, hdeep⟩ := hcall
      obtain ⟨k, f, hrefused⟩ := step_deepCall (s := limited L u) hD hdeep
      have hfits := hstep.fits
      rw [hu] at hfits
      refine ⟨u, .callDepth D, { limited L u with frame := f, last := k }, hu, hfits.used, ?_,
        .inl ⟨hdeep, rfl⟩⟩
      rw [stage, hstep.same, hu, Stage.limited, advance, hrefused]
      rfl
    · have hcall' : ∀ u, (m.withDepth 0).stage s n = .running u → ¬m.AtDeepCall D u :=
        fun u hu hdeep => hcall ⟨u, hu, hdeep⟩
      rcases hstep.succ hm hL hD hcall' with hstep' | ⟨hover, ⟨u, hu⟩, t, ht, hend⟩
      · -- Neither guard was passed, so the run keeps to them for one more step.
        refine absurd ⟨fun k hk => ?_, fun k hk => ?_⟩ h
        · rcases Nat.le_succ_iff.1 hk with hk | rfl
          · exact hn.heap k hk
          · exact hstep'.fits.used
        · rcases Nat.lt_succ_iff_lt_or_eq.1 hk with hk | rfl
          · exact hn.depth k hk
          · exact hcall'
      · exact ⟨u, .heapLimit L, t, hu, ht, hend, .inr ⟨hover, rfl⟩⟩

end

theorem start?_withDepth (m : Machine) (L D : Int) (console : Console) :
    (m.withDepth D).start? (m.boot L console) =
      ((m.withDepth 0).start? (m.boot 0 console)).map (limited L) := by
  rw [start?, start?, Option.map_map]
  rfl

theorem fits_start (hL : 0 < L) {console : Console}
    (h : (m.withDepth 0).start? (m.boot 0 console) = some s) : Fits L s := by
  have hhost : s.host = (m.boot 0 console).host := host_start h
  -- The string pool lies in the heap without having been asked for.
  have hused : m.initialHeap.used = 0 := by
    rw [initialHeap, Heap.mapReadOnly_eq]
    rfl
  constructor
  · change s.host.heap.limit = 0
    rw [hhost]
    rfl
  · change (s.host.heap.used : Int) ≤ L
    rw [hhost]
    change (m.initialHeap.used : Int) ≤ L
    rw [hused]
    exact Int.le_of_lt hL

/-- The guarded execution has the outcome of the free one, while that keeps to the
    guards. -/
theorem execute_eq_of_inStep {console : Console} {n : Nat}
    (h : ∀ s, (m.withDepth 0).start? (m.boot 0 console) = some s → m.InStep L D s n) :
    (m.withDepth D).execute n (m.boot L console) =
      ((m.withDepth 0).execute n (m.boot 0 console)).map fun (o, r) => (o, r.limited L) := by
  rw [execute, execute, start?_withDepth]
  cases hstart : (m.withDepth 0).start? (m.boot 0 console) with
  | none => rfl
  | some s =>
    simp only [Option.map_some]
    rw [run_eq_result?, run_eq_result?, (h s hstart).same, Stage.result?_limited,
      Option.map_map, Option.map_map]
    rfl

/-- The guards of a machine with functions of the library cut its runs short and change
    nothing else. Until the run without guards has asked for more than `L` bytes, or
    makes a call while `D` callers are suspended, the guarded run is in the same state,
    the limit aside, and has the same outcome if it has ended. When the free run does
    so for the first time, the guarded run, which still goes on, ends with that step, by
    the fault of the limit or of the depth; and it never has asked for more than `L`
    bytes. -/
theorem guards_cut_short (m : Machine) (hm : m.UsesLibrary) (L D : Int) (hL : 0 < L) (hD : 0 < D)
    (console : Console) :
    (∀ s, (m.withDepth 0).start? (m.boot 0 console) = some s →
      (m.withDepth D).start? (m.boot L console) = some (limited L s) ∧
      (∀ n, m.KeepsTo L D s n →
        (m.withDepth D).stage (limited L s) n = ((m.withDepth 0).stage s n).limited L) ∧
      (∀ n, ¬m.KeepsTo L D s n → ∃ k < n, m.KeepsTo L D s k ∧ ∃ u f t,
        (m.withDepth 0).stage s k = .running u ∧
        (∀ j, k < j → (m.withDepth D).stage (limited L s) j = .ended (.fault f) t) ∧
        ((m.AtDeepCall D u ∧ f.kind = .internal ∧
            f.cause.message = utf8 "call depth exceeded " ++ decimal D) ∨
          (L < used ((m.withDepth 0).stage s (k + 1)).state ∧ f.kind = .memory ∧
            f.cause.message = utf8 "heap limit exceeded (" ++ decimal L ++ utf8 " bytes)"))) ∧
      ∀ n, used ((m.withDepth D).stage (limited L s) n).state ≤ L) ∧
    ∀ n, (∀ s, (m.withDepth 0).start? (m.boot 0 console) = some s → m.KeepsTo L D s n) →
      (m.withDepth D).execute n (m.boot L console) =
        ((m.withDepth 0).execute n (m.boot 0 console)).map fun (o, r) => (o, r.limited L) := by
  have hdepth {s : State} (hstart : (m.withDepth 0).start? (m.boot 0 console) = some s) :
      s.callers.depth ≤ D := by
    rw [depth_start hstart]
    exact Int.le_of_lt hD
  have hstep {s : State} (hstart : (m.withDepth 0).start? (m.boot 0 console) = some s) {n : Nat}
      (hkeeps : m.KeepsTo L D s n) : m.InStep L D s n :=
    inStep_of_keepsTo hm hL hD (fits_start hL hstart) (hdepth hstart) hkeeps
  have hstop {s : State} (hstart : (m.withDepth 0).start? (m.boot 0 console) = some s) {n : Nat}
      (hkeeps : ¬m.KeepsTo L D s n) :=
    stops_of_not_keepsTo hm hL hD (fits_start hL hstart) (hdepth hstart) hkeeps
  refine ⟨fun s hstart => ⟨?_, fun n hn => (hstep hstart hn).same, fun n hn => ?_, fun n => ?_⟩,
    fun n hn => execute_eq_of_inStep fun s hstart => hstep hstart (hn s hstart)⟩
  · rw [start?_withDepth, hstart, Option.map_some]
  · obtain ⟨k, hk, hkeeps, u, c, t, hu, -, hend, hguard⟩ := hstop hstart hn
    refine ⟨k, hk, hkeeps, u, _, t, hu, fun j hj => stage_of_ended hend hj, ?_⟩
    rcases hguard with ⟨hdeep, rfl⟩ | ⟨hover, rfl⟩
    · exact .inl ⟨hdeep, rfl, rfl⟩
    · exact .inr ⟨hover, rfl, rfl⟩
  · by_cases hkeeps : m.KeepsTo L D s n
    · rw [(hstep hstart hkeeps).same, Stage.state_limited]
      exact (hstep hstart hkeeps).fits.used
    · obtain ⟨k, hk, -, u, c, t, -, ht, hend, -⟩ := hstop hstart hkeeps
      rw [stage_of_ended hend hk]
      exact ht

/-- A main function that asks for eight bytes and calls itself. -/
def growing : Machine where
  program := { functions := some #[{ body := some #[0xBB, 8, 0x57, 0xB8, 0, 0] }] }
  natives := Library.slots

/-- The state in which it starts. -/
def growingStart : State where
  frame := Frame.enter 0 { body := some #[0xBB, 8, 0x57, 0xB8, 0, 0] } []
  callers := .empty
  host := (growing.boot 0 {}).host
  last := 0

theorem guards_cut_short_growing :
    growing.KeepsTo 16 3 growingStart 6 ∧ ¬growing.KeepsTo 16 3 growingStart 7 ∧
      (growing.withDepth 3).stage (limited 16 growingStart) 6 =
        ((growing.withDepth 0).stage growingStart 6).limited 16 ∧
      ∃ f t, (growing.withDepth 3).stage (limited 16 growingStart) 7 = .ended (.fault f) t ∧
        f.kind = .memory := by
  have hnatives : growing.UsesLibrary := by
    intro n hn
    obtain ⟨n', hn', heq⟩ := Array.mem_map.1 hn
    exact Option.some.inj heq ▸ hn'
  -- Every call of it takes three steps, the first of which asks for the bytes.
  have hused : ∀ k < 7, used ((growing.withDepth 0).stage growingStart k).state ≤ 16 := by
    decide +kernel
  have hover : 16 < used ((growing.withDepth 0).stage growingStart 7).state := by
    decide +kernel
  have hdepth : ∀ k < 7, ((growing.withDepth 0).stage growingStart k).state.callers.depth < 3 := by
    decide +kernel
  have hshallow (k : Nat) (hk : k < 7) (u : State)
      (hu : (growing.withDepth 0).stage growingStart k = .running u) : ¬growing.AtDeepCall 3 u := by
    rintro ⟨-, -, -, -, -, hdeep⟩
    have hlt := hdepth k hk
    rw [hu] at hlt
    simp only [Stage.state] at hlt
    omega
  have hkeeps : growing.KeepsTo 16 3 growingStart 6 :=
    ⟨fun k hk => Int.ofNat_le.2 (hused k (Nat.lt_succ_of_le hk)),
      fun k hk => hshallow k (Nat.lt_succ_of_lt hk)⟩
  have hbreaks : ¬growing.KeepsTo 16 3 growingStart 7 := fun h =>
    Nat.not_le.2 hover (Int.ofNat_le.1 (h.heap 7 (Nat.le_refl 7)))
  obtain ⟨-, hsame, hstop, -⟩ :=
    (guards_cut_short growing hnatives 16 3 (by decide) (by decide) {}).1 growingStart rfl
  refine ⟨hkeeps, hbreaks, hsame 6 hkeeps, ?_⟩
  obtain ⟨k, hk, -, u, f, t, hu, hend, hguard⟩ := hstop 7 hbreaks
  rcases hguard with ⟨hdeep, -⟩ | ⟨-, hkind, -⟩
  · exact absurd hdeep (hshallow k hk u hu)
  · exact ⟨f, t, hend 7 hk, hkind⟩

end Machine

end CZero
