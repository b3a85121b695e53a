import CZero.Proofs.CallChain

/-!
# Where faults are located

A fault is located in the function of the current frame, at the address noted last. A
run comes to a fault in one of three ways (`FaultsWith`): there is no instruction at the
current address, an instruction fails, or the outermost return gives back a pointer.

An instruction that fails has noted its own address and is still in the frame in which
it was fetched, so its fault names it (`fault_names_instruction`), unless a native function
brings along a fault that names a place of its own (`brought_from_elsewhere`). Where there
is no instruction nothing is noted, and the address is still that of the step before. That
step may have been a call or a return, taken in another function, or there may have been
none in this run (`unfetched_location`).
-/

namespace CZero

/-- A fault that was given a location is reported there. -/
theorem Fault.report_of_location {f : Fault} {l : Location} (h : f.location = some l) :
    f.report.func = l.func ∧ f.report.pc = l.pc := by
  rw [report, h]
  exact ⟨rfl, rfl⟩

/-- A fault that was given none is reported as its cause is. -/
theorem Fault.report_of_none {f : Fault} (h : f.location = none) : f.report = f.cause.report := by
  rw [report, h]

namespace Machine

open CZero.Action State

variable {m : Machine} {s t u : State} {f : Fault}

/-! ## Why a step fails -/

/-- The next step of `s` is a native call, and the function fails with `e`. -/
def NativeFails (m : Machine) (s : State) (e : Failure) : Prop :=
  ∃ c host host', m.nextCall? s = some (c, host) ∧ c.native.call c.args host = .error e host'

theorem admits_isFault : Admits AnyHost Failure.IsFault where
  heap _ _ _ _ := trivial
  fault _ h := h

/-- A native call that fails has not been prepared, or its function has failed. -/
theorem nativeCall_eq_error {index : UInt16} {e : Failure}
    (hfetch : fetchInstr s = .ok (.callNative index) u)
    (h : (m.prepareNative index.toNat >>= Call.perform) u = .error e t) :
    e.IsFault ∨ ∃ slot e', e = nativeFailure slot e' ∧ m.NativeFails s e' := by
  rcases bind_eq_error.1 h with hprepare | ⟨c, w, hprepare, hperform⟩
  · exact .inl ((admits_isFault.composes.prepareNative _).error hprepare).2
  · have hnext : m.nextCall? s = some (c, w.host) := by
      simp only [nextCall?, hfetch, hprepare]
    unfold Call.perform at hperform
    cases hcall : c.native.call c.args w.host <;> simp only [hcall] at hperform <;> cases hperform
    exact .inr ⟨c.slot, _, rfl, c, w.host, _, hnext, hcall⟩

/-- A step fails by a fault that the machine finds, or because a native function has failed. -/
theorem step_error_cases {e : Failure} (h : m.step s = .error e t) :
    e.IsFault ∨ ∃ slot e', e = nativeFailure slot e' ∧ m.NativeFails s e' := by
  rcases bind_eq_error.1 h with hfetch | ⟨i, u, hfetch, hexec⟩
  · rcases inside_or_outside s.frame with hout | ⟨k, hpc, hk⟩
    · rw [fetchInstr_outside hout] at hfetch
      cases hfetch
      exact .inl trivial
    · rw [fetchInstr_inside hpc hk] at hfetch
      obtain ⟨g, hg, -⟩ := onFrame_eq_error.1 hfetch
      exact .inl ((Instr.decode_onlyMoves hpc hk).error hg).2
  by_cases hnative : ∃ index, i = .callNative index
  · obtain ⟨index, rfl⟩ := hnative
    rw [exec_of_ne_ret (i := .callNative index) nofun] at hexec
    rcases bind_eq_error.1 hexec with hperform | ⟨_, _, _, ⟨⟩⟩
    exact nativeCall_eq_error hfetch hperform
  · exact .inl (admits_isFault.exec_eq_error (fun index hi => absurd ⟨index, hi⟩ hnative) hexec).2

/-- Only a native function brings a fault that names an instruction. -/
theorem nativeFails_of_isLocated {c : Fault.Cause} (h : m.step s = .error (.fault c) t)
    (hc : c.report.isLocated) : ∃ r, c = .brought r ∧ m.NativeFails s (.fault (.brought r)) := by
  rcases step_error_cases h with hfault | ⟨slot, e, he, hnative⟩
  · exact absurd hc hfault.not_isLocated
  cases c with
  | brought r =>
    refine ⟨r, rfl, ?_⟩
    cases e with
    | fault c' =>
      cases he
      exact hnative
    | refused reason | crash => cases he
  | _ => cases hc

/-! ## How a run comes to a fault -/

/-- The step of `u` brings the run to a fault. -/
inductive FaultsWith (m : Machine) (u : State) : Fault → Prop
  /-- There is no instruction at the current address. -/
  | outside : (u.frame.pc < 0 ∨ u.frame.code.size ≤ u.frame.pc) →
    FaultsWith m u
      ⟨.pcOutside u.frame.pc u.frame.func u.frame.code.size, some ⟨u.frame.func, u.last⟩⟩
  /-- The instruction at the current address fails. -/
  | failed {k : Nat} {c : Fault.Cause} {t : State} : u.frame.pc = k → k < u.frame.code.size →
    m.step u = .error (.fault c) t → ¬c.report.isLocated →
      FaultsWith m u ⟨c, some ⟨u.frame.func, k⟩⟩
  /-- The native function that the instruction calls brings a fault that names another one. -/
  | brought {k : Nat} {r : Fault.Report} {t : State} : u.frame.pc = k → k < u.frame.code.size →
    m.step u = .error (.fault (.brought r)) t → m.NativeFails u (.fault (.brought r)) →
      r.isLocated → FaultsWith m u ⟨.brought r, none⟩
  /-- The outermost return gives back a pointer. -/
  | gave {k : Nat} {p : Addr} {t : State} : AtReturn u k (.ptr p) → u.callers = .empty →
    m.step u = .ok (some (.ptr p)) t → FaultsWith m u ⟨.expectedInt (.ptr p), none⟩

theorem faultsWith_of_ends (h : m.Ends u (.fault f) t) : m.FaultsWith u f := by
  generalize ho : Outcome.fault f = o at h
  cases h with
  | returned hstep =>
    rename_i c
    cases c with
    | int n => cases ho
    | ptr p =>
      cases ho
      cases step_moved m.obeys_anyHost hstep with
      | done hret hcallers hstay => exact .gave hret hcallers hstep
  | stopped hstep =>
    rename_i e
    cases e with
    | refused reason => cases ho
    | crash => cases ho
    | fault c =>
      cases ho
      rcases inside_or_outside u.frame with hout | ⟨k, hpc, hk⟩
      · rw [step_outside hout] at hstep
        cases hstep
        exact .outside hout
      obtain ⟨hstay, -⟩ := step_error_inside m.obeys_anyHost hpc hk hstep
      rw [locationOf]
      by_cases hc : c.report.isLocated
      · obtain ⟨r, rfl, hnative⟩ := nativeFails_of_isLocated hstep hc
        rw [if_pos hc]
        exact .brought hpc hk hstep hnative hc
      · rw [if_neg hc, hstay.last, hstay.body.func]
        exact .failed hpc hk hstep hc

/-- An execution that ends in a fault has come to it from its start. -/
theorem execute_fault {fuel : Nat} {r r' : Residue} (h : m.execute fuel r = some (.fault f, r')) :
    ∃ s n u, m.start? r = some s ∧ m.after n s = some u ∧ m.FaultsWith u f := by
  rcases execute_eq_some h with ⟨-, ⟨⟩, -⟩ | ⟨s, n, u, t, hs, hu, hend, -⟩
  exact ⟨s, n, u, hs, hu, faultsWith_of_ends hend⟩

/-- The code that a run executes is that of the program's functions. -/
theorem code_of_after {r : Residue} {n : Nat} (hs : m.start? r = some s)
    (hu : m.after n s = some u) :
    ∃ g, m.program.functionPool[u.frame.func]? = some g ∧ u.frame.code = g.code := by
  have hchain : CallChain m.program u.activations :=
    after_preserves (fun _ _ => callChain_step) (callChain_start hs) hu
  obtain ⟨g, hg, hcode, -⟩ := hchain.bodies u.frame List.mem_cons_self
  exact ⟨g, hg, hcode⟩

/-- The fault of an instruction names it, unless a native function has named another one. An
    execution that ends in a fault has come, from its start, to a state `u` in which it ends
    in one of three ways. There is no instruction at the current address. Or there is one and
    it fails: then the fault is located in the function of `u` and at that address, where the
    program has that instruction; except that the instruction may be a native call whose
    function fails by a fault that names an instruction already, and then this is what the
    execution gives back, as it is. Or the outermost return gives back a pointer: then, and
    only then, the fault is reported at address -1 of function 0. -/
theorem fault_names_instruction (m : Machine) {fuel : Nat} {r r' : Residue} {f : Fault}
    (h : m.execute fuel r = some (.fault f, r')) :
    ∃ s₀ n u, m.start? r = some s₀ ∧ m.after n s₀ = some u ∧
      ((u.frame.pc < 0 ∨ u.frame.code.size ≤ u.frame.pc) ∧
          f.cause = .pcOutside u.frame.pc u.frame.func u.frame.code.size ∧
          f.location = some ⟨u.frame.func, u.last⟩ ∨
        (∃ (k : Nat) (op : UInt8) (g : Function) (t : State),
          u.frame.pc = k ∧ u.frame.code[k]? = some op ∧
          m.program.functionPool[u.frame.func]? = some g ∧ g.code[k]? = some op ∧
          m.step u = .error (.fault f.cause) t ∧
          (f.location = some ⟨u.frame.func, k⟩ ∧ f.report.func = u.frame.func ∧
              f.report.pc = k ∨
            f.location = none ∧ f.report.isLocated ∧
              m.NativeFails u (.fault (.brought f.report)))) ∨
        ∃ (k : Nat) (p : Addr) (t : State), AtReturn u k (.ptr p) ∧ u.callers = .empty ∧
          m.step u = .ok (some (.ptr p)) t ∧ f.cause = .expectedInt (.ptr p) ∧
          f.location = none) ∧
      (f.report.pc = -1 ∧ f.report.func = 0 ↔ ∃ p t, m.step u = .ok (some (.ptr p)) t) := by
  obtain ⟨s₀, n, u, hs, hu, hf⟩ := execute_fault h
  refine ⟨s₀, n, u, hs, hu, ?_⟩
  cases hf with
  | outside hout => simp [hout, step_outside hout, Fault.report]
  | failed hpc hk hstep =>
    rename_i k c t hc
    obtain ⟨g, hg, hcode⟩ := code_of_after hs hu
    have hop := Array.getElem?_eq_getElem hk
    have hreport := Fault.report_of_location (f := ⟨c, some ⟨u.frame.func, k⟩⟩) rfl
    refine ⟨.inr (.inl ⟨k, _, g, t, hpc, hop, hg, hcode ▸ hop, hstep, .inl ⟨rfl, hreport⟩⟩), ?_⟩
    rw [hreport.2, hstep]
    exact ⟨fun hnone => by omega, nofun⟩
  | brought hpc hk hstep hnative hr =>
    rename_i k r t
    obtain ⟨g, hg, hcode⟩ := code_of_after hs hu
    have hop := Array.getElem?_eq_getElem hk
    refine ⟨.inr (.inl ⟨k, _, g, t, hpc, hop, hg, hcode ▸ hop, hstep, .inr ⟨rfl, hr, hnative⟩⟩), ?_⟩
    rw [hstep]
    refine ⟨fun hnone => ?_, nofun⟩
    have hpc : 0 ≤ r.pc := of_decide_eq_true hr
    rw [Fault.report_of_none rfl] at hnone
    change r.pc = -1 ∧ _ at hnone
    omega
  | gave hret hcallers hstep =>
    rename_i k p t
    refine ⟨.inr (.inr ⟨k, p, t, hret, hcallers, hstep, rfl, rfl⟩), ?_⟩
    exact ⟨fun _ => ⟨p, t, hstep⟩, fun _ => ⟨rfl, rfl⟩⟩

/-- A function of two arguments that is called with one. The call is refused half-way,
    when the argument that is there has been taken. -/
def underflowing : Machine where
  program :=
    { functions := some #[{ body := some #[0x10, 5, 0xB8, 0, 1] }, { args := 2, vars := 2 }] }
  natives := #[]

theorem fault_names_instruction_underflowing :
    ∃ f r', underflowing.execute 2 (underflowing.boot 0 {}) = some (.fault f, r') ∧
      ∃ s₀ n u t, underflowing.start? (underflowing.boot 0 {}) = some s₀ ∧
        underflowing.after n s₀ = some u ∧ u.frame.pc = 2 ∧ u.frame.code[2]? = some 0xB8 ∧
        underflowing.step u = .error (.fault .stackUnderflow) t ∧
        f = ⟨.stackUnderflow, some ⟨u.frame.func, 2⟩⟩ := by
  have hends : (underflowing.execute 2 (underflowing.boot 0 {})).map Prod.fst =
      some (.fault ⟨.stackUnderflow, some ⟨0, 2⟩⟩) := by
    decide +kernel
  obtain ⟨⟨_, r'⟩, hrun, rfl⟩ := Option.map_eq_some_iff.1 hends
  refine ⟨_, r', hrun, ?_⟩
  obtain ⟨s₀, n, u, hs, hu, h | h | h, -⟩ := fault_names_instruction underflowing hrun
  · cases h.2.1
  · obtain ⟨k, op, g, t, hpc, hop, hg, hgop, hstep, ⟨hl, -⟩ | ⟨⟨⟩, -⟩⟩ := h
    obtain ⟨hfunc, rfl⟩ := Fault.Location.mk.inj (Option.some.inj hl)
    rw [← hfunc] at hg
    cases hg
    cases hgop
    exact ⟨s₀, n, u, t, hs, hu, hpc, hop, hstep, by rw [← hfunc]⟩
  · obtain ⟨k, p, t, -, -, -, hcause, -⟩ := h
    cases hcause

/-- A main function whose second instruction calls a native function, which fails by a fault
    that names the first instruction of the function 7. -/
def bringing : Machine where
  program := { functions := some #[{ body := some #[0x00, 0xB7, 0, 0] }], natives := some #[{}] }
  natives := #[some ⟨"elsewhere", fun _ => fault (.brought ⟨2, utf8 "elsewhere", 7, 0⟩)⟩]

/-- Not every fault of an instruction names it. -/
theorem brought_from_elsewhere :
    ¬∀ (m : Machine) (fuel : Nat) (r r' : Residue) (f : Fault) (s₀ : State) (n : Nat) (u : State)
      (k : Nat) (t : State), m.execute fuel r = some (.fault f, r') → m.start? r = some s₀ →
        m.after n s₀ = some u → u.frame.pc = k → k < u.frame.code.size →
          m.step u = .error (.fault f.cause) t →
            f.report.func = u.frame.func ∧ f.report.pc = k := by
  intro hall
  have hlocated := hall bringing 2 (bringing.boot 0 {}) _ _ _ 1 _ 1 _
    rfl rfl rfl rfl (by decide) rfl
  exact absurd hlocated.2 (by decide)

/-! ## Locations at which nothing was fetched -/

/-- The run from `s` fetches an instruction at `l`. -/
def Fetches (m : Machine) (s : State) (l : Fault.Location) : Prop :=
  ∃ n u, m.after n s = some u ∧ u.frame.func = l.func ∧ u.frame.pc = l.pc ∧
    l.pc < u.frame.code.size

/-- A step notes the address at which it found its instruction, and it is in the same
    function afterwards unless it went to another depth. -/
theorem step_notes (h : m.step s = .ok none t) :
    s.frame.pc = t.last ∧ t.last < s.frame.code.size ∧
      (t.frame.func = s.frame.func ∨ t.callers.depth ≠ s.callers.depth) := by
  obtain ⟨k, hpc, hk⟩ : ∃ k : Nat, s.frame.pc = k ∧ k < s.frame.code.size := by
    rcases inside_or_outside s.frame with hout | hin
    · rw [step_outside hout] at h
      cases h
    · exact hin
  suffices hlast : t.last = k ∧ (t.frame.func = s.frame.func ∨ t.callers.depth ≠ s.callers.depth) by
    rw [hlast.1]
    exact ⟨hpc, hk, hlast.2⟩
  generalize hr : none = r at h
  cases step_moved m.obeys_anyHost h with
  | stay hpc' hstay =>
    obtain rfl := Int.ofNat_inj.1 (hpc.symm.trans hpc')
    exact ⟨hstay.last, .inl hstay.body.func⟩
  | enter hcall hdepth hvars =>
    obtain rfl := Int.ofNat_inj.1 (hpc.symm.trans hcall.pc)
    exact ⟨rfl, .inr (Nat.succ_ne_self _)⟩
  | back hret hcallers =>
    obtain rfl := Int.ofNat_inj.1 (hpc.symm.trans hret.pc)
    rw [hcallers]
    exact ⟨rfl, .inr (Nat.succ_ne_self _).symm⟩
  | done hret hcallers hstay => cases hr

/-- What is known of a location at which nothing was fetched. The function that a located
    fault names is one of the program. If the run has not fetched an instruction at the
    location, then the fault is that there is none at the current address, and the address
    it names was noted by the step before, a call or a return in another function, or, if
    there was no step before, in an earlier run. -/
theorem unfetched_location (m : Machine) {fuel : Nat} {r r' : Residue} {f : Fault}
    {l : Fault.Location} (h : m.execute fuel r = some (.fault f, r')) (hl : f.location = some l) :
    ∃ s₀ n u g, m.start? r = some s₀ ∧ m.after n s₀ = some u ∧ l.func = u.frame.func ∧
      m.program.functionPool[l.func]? = some g ∧
      (m.Fetches s₀ l ∧ l.pc < g.code.size ∨
        f.cause = .pcOutside u.frame.pc l.func g.code.size ∧
          (n = 0 ∧ l.pc = r.last ∨
            ∃ k w, n = k + 1 ∧ m.after k s₀ = some w ∧ w.frame.pc = l.pc ∧
              w.frame.func ≠ l.func ∧ w.callers.depth ≠ u.callers.depth)) := by
  obtain ⟨s₀, n, u, hs, hu, hf⟩ := execute_fault h
  obtain ⟨g, hg, hcode⟩ := code_of_after hs hu
  cases hf with
  | gave hret hcallers hstep => cases hl
  | brought hpc hk hstep hnative hr => cases hl
  | failed hpc hk hstep =>
    cases hl
    exact ⟨s₀, n, u, g, hs, hu, rfl, hg, .inl ⟨⟨n, u, hu, rfl, hpc, hk⟩, hcode ▸ hk⟩⟩
  | outside hout =>
    cases hl
    refine ⟨s₀, n, u, g, hs, hu, rfl, hg, ?_⟩
    rw [← hcode]
    cases n with
    | zero =>
      cases hu
      obtain ⟨main, -, rfl⟩ := Option.map_eq_some_iff.1 hs
      exact .inr ⟨rfl, .inl ⟨rfl, rfl⟩⟩
    | succ k =>
      obtain ⟨w, hw, hstep⟩ := after_succ_iff.1 hu
      obtain ⟨hpc, hlast, hfunc⟩ := step_notes hstep
      by_cases hsame : w.frame.func = u.frame.func
      · -- The step before was taken in the same function, where it found its instruction.
        obtain ⟨g', hg', hcode'⟩ := code_of_after hs hw
        obtain rfl : g = g' := Option.some.inj (hg.symm.trans (hsame ▸ hg'))
        refine .inl ⟨⟨k, w, hw, hsame, hpc, hlast⟩, ?_⟩
        rwa [hcode, ← hcode']
      · refine .inr ⟨rfl, .inr ⟨k, w, rfl, hw, hpc, hsame, ?_⟩⟩
        exact (hfunc.resolve_left (Ne.symm hsame)).symm

/-- A main function that calls a function without code. -/
def callingEmpty : Machine where
  program := { functions := some #[{ body := some #[0xB8, 0, 1] }, { body := some #[] }] }
  natives := #[]

/-- The fault is located in the function without code, at the address of the call. -/
theorem execute_callingEmpty :
    (callingEmpty.execute 2 (callingEmpty.boot 0 {})).map Prod.fst =
      some (.fault ⟨.pcOutside 0 1 0, some ⟨1, 0⟩⟩) := by
  decide +kernel

theorem unfetched_location_callingEmpty :
    ∃ f r', callingEmpty.execute 2 (callingEmpty.boot 0 {}) = some (.fault f, r') ∧
      f.location = some ⟨1, 0⟩ ∧
      ∃ s₀ k w, callingEmpty.start? (callingEmpty.boot 0 {}) = some s₀ ∧
        callingEmpty.after k s₀ = some w ∧ w.frame.pc = 0 ∧ w.frame.func ≠ 1 := by
  obtain ⟨⟨_, r'⟩, hrun, rfl⟩ := Option.map_eq_some_iff.1 execute_callingEmpty
  refine ⟨_, r', hrun, rfl, ?_⟩
  obtain ⟨s₀, n, u, g, hs, hu, hfunc, hg, h⟩ := unfetched_location callingEmpty hrun rfl
  rcases h with ⟨-, hpc⟩ | ⟨-, ⟨rfl, -⟩ | ⟨k, w, -, hw, hpc, hother, -⟩⟩
  · cases hg
    exact absurd hpc (by decide)
  · cases hu
    cases hs
    cases hfunc
  · exact ⟨s₀, k, w, hs, hw, hpc, hother⟩

/-- Not every located fault names an instruction of the program. -/
theorem located_without_instruction :
    ¬∀ (m : Machine) (fuel : Nat) (r r' : Residue) (f : Fault) (l : Fault.Location),
      m.program.functionPool ≠ #[] → m.execute fuel r = some (.fault f, r') →
        f.location = some l →
          ∃ g, m.program.functionPool[l.func]? = some g ∧ l.pc < g.code.size := by
  intro hall
  obtain ⟨⟨_, r'⟩, hrun, rfl⟩ := Option.map_eq_some_iff.1 execute_callingEmpty
  obtain ⟨g, hg, hpc⟩ := hall callingEmpty 2 _ r' _ _ (by decide) hrun rfl
  cases hg
  exact absurd hpc (by decide)

end Machine

end CZero
