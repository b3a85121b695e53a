import CZero.Proofs.Guards

/-!
# What lies underneath

Cells that lie underneath the operand stack of an activation are of no consequence to it,
and it leaves them where they are. The run of a state is compared with the run of the same
state with some cells put underneath the stack of its activation: they go through the same
states, these cells aside (`base_undisturbed`). There are two exceptions. The run with
nothing underneath may underflow where the other one finds a cell, and a return looks at
the whole stack of the activation that it leaves.

An action is blind to the cells if they make no difference to what it does
(`Action.Commutes`). An action is so because the actions are that it is made of: on a frame,
all but a return take cells off the top or put them there (`Frame.Ignores`). In a state, the
cells lie in the current frame or, while it waits for a call, in a suspended one
(`State.under`), and then even a return is blind to them (`leave_commutesAt`). So a step is
(`step_commutesAt`), and by induction a run.
-/

namespace CZero

open CZero.Action

/-! ## Actions that commute with a change of the state -/

namespace Action

variable {σ α β : Type} {φ : σ → σ} {E : Failure → σ → Prop} {s : σ}

/-- From the state `s` and from `φ s`, the action does the same, and `φ` makes the one state
    that it ends in of the other; or else from `s` it fails as `E` allows. -/
def CommutesAt (φ : σ → σ) (E : Failure → σ → Prop) (x : Action σ α) (s : σ) : Prop :=
  (∃ e t, x s = .error e t ∧ E e t) ∨ x (φ s) = inside φ (x s)

/-- From all states, the action commutes with `φ`. -/
def Commutes (φ : σ → σ) (E : Failure → σ → Prop) (x : Action σ α) : Prop :=
  ∀ s, CommutesAt φ E x s

theorem CommutesAt.bind {x : Action σ α} {f : α → Action σ β} (hx : CommutesAt φ E x s)
    (hf : ∀ a t, x s = .ok a t → CommutesAt φ E (f a) t) : CommutesAt φ E (x >>= f) s := by
  rcases hx with ⟨e, t, ht, he⟩ | hx
  · exact .inl ⟨e, t, bind_of_error ht, he⟩
  cases hs : x s with
  | error e t =>
    rw [hs, inside] at hx
    refine .inr ?_
    rw [bind_of_error hx, bind_of_error hs, inside]
  | ok a t =>
    rw [hs, inside] at hx
    rw [CommutesAt, bind_of_ok hx, bind_of_ok hs]
    exact hf a t hs

theorem CommutesAt.ite {p : Prop} [Decidable p] {x y : Action σ α} (hx : p → CommutesAt φ E x s)
    (hy : ¬p → CommutesAt φ E y s) : CommutesAt φ E (if p then x else y) s := by
  split
  · exact hx ‹_›
  · exact hy ‹_›

/-- What is looked up in a state is to be the same in the other one. -/
theorem CommutesAt.get_bind {f : σ → Action σ α} (hf : CommutesAt φ E (f s) s)
    (hsame : f (φ s) = f s) : CommutesAt φ E (get >>= f) s := by
  rwa [CommutesAt, bind_of_ok (get_apply s), bind_of_ok (get_apply (φ s)), hsame]

theorem Commutes.bind {x : Action σ α} {f : α → Action σ β} (hx : Commutes φ E x)
    (hf : ∀ a, Commutes φ E (f a)) : Commutes φ E (x >>= f) :=
  fun s => (hx s).bind fun a t _ => hf a t

theorem Commutes.ite {p : Prop} [Decidable p] {x y : Action σ α} (hx : Commutes φ E x)
    (hy : Commutes φ E y) : Commutes φ E (if p then x else y) :=
  fun s => .ite (fun _ => hx s) fun _ => hy s

theorem pure_commutes (a : α) : Commutes φ E (pure a : Action σ α) :=
  fun _ => .inr rfl

theorem fault_commutes (c : Fault.Cause) : Commutes φ E (fault c : Action σ α) :=
  fun _ => .inr rfl

theorem inside_inside {ρ τ : Type} (f : σ → ρ) (g : τ → σ) (r : EStateM.Result Failure τ α) :
    inside f (inside g r) = inside (f ∘ g) r := by
  cases r <;> rfl

theorem ofResult_commutes (r : Except Failure α) : Commutes φ E (ofResult r : Action σ α) :=
  fun _ => .inr (by cases r <;> rfl)

end Action

/-! ## Frames -/

namespace Frame

variable {α : Type} {base : List Cell}

/-- The frame with `base` underneath its stack. -/
def under (base : List Cell) (f : Frame) : Frame :=
  { f with stack := f.stack ++ base }

/-- The failure is that the stack underflows. -/
def Underflows (e : Failure) (_ : Frame) : Prop :=
  e = .fault .stackUnderflow

/-- Unless the stack underflows, the action ignores what lies underneath. -/
abbrev Ignores (base : List Cell) (x : Action Frame α) : Prop :=
  Commutes (under base) Underflows x

theorem push_ignores (c : Cell) : Ignores base (push c) :=
  fun _ => .inr rfl

theorem pop_ignores : Ignores base pop := by
  rintro ⟨func, code, pc, stack, locals⟩
  cases stack with
  | nil => exact .inl ⟨_, _, rfl, rfl⟩
  | cons c rest => exact .inr rfl

theorem popInt_ignores : Ignores base popInt :=
  pop_ignores.bind fun _ => ofResult_commutes _

theorem popPtr_ignores : Ignores base popPtr :=
  pop_ignores.bind fun _ => ofResult_commutes _

theorem popList_ignores (acc : List Cell) (n : Nat) : Ignores base (popList acc n) := by
  induction n generalizing acc with
  | zero => exact pure_commutes acc
  | succ n ih => exact pop_ignores.bind fun c => ih (c :: acc)

theorem popArgs_ignores (n : Nat) : Ignores base (popArgs n) :=
  popList_ignores [] n

theorem getLocal_ignores (i : Int) : Ignores base (getLocal i) := by
  refine fun f => .inr ?_
  unfold getLocal
  change (if i ≥ f.locals.size then _ else _) = _
  split
  · rfl
  · cases i with
    | ofNat k =>
      change ofResult (fetch f.locals k) (f.under base) = inside _ (ofResult (fetch f.locals k) f)
      cases fetch f.locals k <;> rfl
    | negSucc k => rfl

theorem setLocal_ignores (i : Int) (c : Cell) : Ignores base (setLocal i c) := by
  refine fun f => .inr ?_
  unfold setLocal
  change (if i ≥ f.locals.size then _ else _) = _
  split
  · rfl
  · cases i <;> rfl

theorem jump_ignores (pc : Int) : Ignores base (jump pc) :=
  fun _ => .inr rfl

theorem need_ignores (n : Nat) : Ignores base (need n) := by
  refine fun f => .inr ?_
  unfold need
  change (if f.pc + n > f.code.size then _ else _) = _
  split <;> rfl

theorem nextByte_ignores : Ignores base nextByte := by
  refine fun f => .inr ?_
  have hbyte : (f.under base).codeAt (f.under base).pc = f.codeAt f.pc := rfl
  rw [nextByte, nextByte, hbyte]
  cases f.codeAt f.pc <;> rfl

theorem readU8_ignores : Ignores base readU8 :=
  (need_ignores 1).bind fun _ => nextByte_ignores

theorem readU16_ignores : Ignores base readU16 :=
  (need_ignores 2).bind fun _ => nextByte_ignores.bind fun _ => nextByte_ignores.bind fun _ =>
    pure_commutes _

theorem decode_ignores : Ignores base Instr.decode := by
  refine nextByte_ignores.bind fun b => ?_
  split
  · rename_i op _
    rcases Instr.readOperands_shape op with ⟨-, i, h⟩ | ⟨-, c, h⟩ | ⟨-, c, h⟩ | ⟨-, cause, h, -⟩ <;>
      rw [h]
    · exact pure_commutes i
    · exact readU8_ignores.bind fun _ => pure_commutes _
    · exact readU16_ignores.bind fun _ => pure_commutes _
    · exact fault_commutes cause
  · exact fault_commutes _

end Frame

/-! ## States -/

/-- The frames, the most recent first, with `base` underneath the stack of the one that has
    `d` frames below it. -/
def underAt (d : Nat) (base : List Cell) : List Frame → List Frame
  | [] => []
  | f :: fs => if fs.length = d then f.under base :: fs else f :: underAt d base fs

theorem length_underAt (d : Nat) (base : List Cell) (fs : List Frame) :
    (underAt d base fs).length = fs.length := by
  induction fs with
  | nil => rfl
  | cons f fs ih =>
    rw [underAt]
    split
    · rfl
    · rw [List.length_cons, List.length_cons, ih]

/-- The suspended frames, with `base` underneath the stack of one of them. -/
def CallStack.under (d : Nat) (base : List Cell) (cs : CallStack) : CallStack where
  frames := underAt d base cs.frames
  depth := cs.depth
  depth_eq := by rw [length_underAt, cs.depth_eq]

namespace State

variable {α : Type} {d : Nat} {base : List Cell} {s t : State}

/-- The state with `base` underneath the stack of the activation that has `d` callers, be it
    the current one or a suspended one. -/
def under (d : Nat) (base : List Cell) (s : State) : State :=
  if s.callers.depth = d then { s with frame := s.frame.under base }
  else { s with callers := s.callers.under d base }

theorem under_of_eq (hd : s.callers.depth = d) :
    s.under d base = { s with frame := s.frame.under base } :=
  if_pos hd

theorem under_of_ne (hd : s.callers.depth ≠ d) :
    s.under d base = { s with callers := s.callers.under d base } :=
  if_neg hd

@[simp] theorem depth_under (d : Nat) (base : List Cell) (s : State) :
    (s.under d base).callers.depth = s.callers.depth := by
  rw [under]
  split <;> rfl

@[simp] theorem host_under (d : Nat) (base : List Cell) (s : State) :
    (s.under d base).host = s.host := by
  rw [under]
  split <;> rfl

@[simp] theorem last_under (d : Nat) (base : List Cell) (s : State) :
    (s.under d base).last = s.last := by
  rw [under]
  split <;> rfl

/-- The current frame with `base` underneath its stack, or with nothing. -/
theorem frame_under (d : Nat) (base : List Cell) (s : State) :
    (s.under d base).frame = s.frame.under (if s.callers.depth = d then base else []) := by
  rw [under]
  split
  · rfl
  · rw [Frame.under, List.append_nil]

/-- All activations, with `base` underneath the stack of one of them. -/
theorem activations_under (d : Nat) (base : List Cell) (s : State) :
    (s.under d base).activations = underAt d base s.activations := by
  rw [under, activations, activations, underAt, ← s.callers.depth_eq]
  split <;> rfl

/-- Suspending the current frame leaves `base` where it is. -/
theorem push_under (d : Nat) (base : List Cell) (s : State) :
    (s.callers.push s.frame).under d base =
      (s.under d base).callers.push (s.under d base).frame :=
  CallStack.ext_frames (activations_under d base s).symm

/-- The stack of the activation that has `d` callers underflows. -/
def Underflows (d : Nat) (e : Failure) (t : State) : Prop :=
  e = .fault .stackUnderflow ∧ t.callers.depth = d

/-- Unless the stack underflows that `base` is underneath of, the action does not see it. -/
abbrev Ignores (d : Nat) (base : List Cell) (x : Action State α) : Prop :=
  Commutes (under d base) (Underflows d) x

theorem onFrame_eq (x : Action Frame α) (s : State) :
    onFrame x s = inside (fun f => { s with frame := f }) (x s.frame) := by
  rw [onFrame]
  cases x s.frame <;> rfl

theorem onHost_eq (x : Action Host α) (s : State) :
    onHost x s = inside (fun h => { s with host := h }) (x s.host) := by
  rw [onHost]
  cases x s.host <;> rfl

theorem onFrame_ignores {x : Action Frame α} (hx : Frame.Ignores base x) :
    Ignores d base (onFrame x) := by
  intro s
  by_cases hd : s.callers.depth = d
  · rcases hx s.frame with ⟨e, g, hg, he⟩ | hsame
    · exact .inl ⟨e, _, onFrame_eq_error.2 ⟨g, hg, rfl⟩, he, hd⟩
    · right
      rw [under_of_eq hd, onFrame_eq, onFrame_eq, hsame, inside_inside, inside_inside]
      refine congrArg (inside · _) (funext fun f => ?_)
      exact (under_of_eq (s := { s with frame := f }) hd).symm
  · right
    rw [under_of_ne hd, onFrame_eq, onFrame_eq, inside_inside]
    refine congrArg (inside · _) (funext fun f => ?_)
    exact (under_of_ne (s := { s with frame := f }) hd).symm

theorem onHost_ignores (x : Action Host α) : Ignores d base (onHost x) := by
  intro s
  right
  rw [onHost_eq, onHost_eq, host_under, inside_inside]
  refine congrArg (inside · _) (funext fun h => ?_)
  rw [Function.comp_apply, under, under]
  split <;> rfl

theorem push_ignores (c : Cell) : Ignores d base (push c) :=
  onFrame_ignores (Frame.push_ignores c)

theorem pop_ignores : Ignores d base pop :=
  onFrame_ignores Frame.pop_ignores

theorem popInt_ignores : Ignores d base popInt :=
  onFrame_ignores Frame.popInt_ignores

theorem popPtr_ignores : Ignores d base popPtr :=
  onFrame_ignores Frame.popPtr_ignores

theorem onHeap_ignores (x : Action Heap α) : Ignores d base (onHeap x) :=
  onHost_ignores _

theorem ofHeap_ignores (f : Heap → Except Failure α) : Ignores d base (ofHeap f) :=
  onHost_ignores _

end State

/-- The opcode at the current address. -/
def State.opcode? (s : State) : Option UInt8 :=
  if 0 ≤ s.frame.pc then s.frame.code[s.frame.pc.toNat]? else none

theorem State.opcode?_under (d : Nat) (base : List Cell) (s : State) :
    (s.under d base).opcode? = s.opcode? := by
  rw [opcode?, opcode?, frame_under]
  rfl

namespace Machine

open State

variable {m : Machine} {d : Nat} {base : List Cell} {s t u : State}

/-! ## Steps -/

theorem branch_ignores (offset : Int16) :
    Ignores d base (get >>= fun s : State => branch s.last offset) :=
  fun s => .get_bind (onFrame_ignores (Frame.jump_ignores _) s) (by rw [last_under])

/-- What a native call does to the host. -/
def Call.onNative (c : Call) : Action Host Cell := fun h =>
  match c.native.call c.args h with
  | .ok v h => .ok v h
  | .error e h => .error (nativeFailure c.slot e) h

theorem Call.perform_eq (c : Call) : c.perform = onHost c.onNative >>= push := by
  funext s
  cases hcall : c.native.call c.args s.host with
  | ok v h =>
    have hhost : onHost c.onNative s = .ok v { s with host := h } :=
      onHost_eq_ok.2 ⟨h, by rw [onNative, hcall], rfl⟩
    rw [perform_of_ok hcall, bind_of_ok hhost]
    rfl
  | error e h =>
    have hhost : onHost c.onNative s = .error (nativeFailure c.slot e) { s with host := h } :=
      onHost_eq_error.2 ⟨h, by rw [onNative, hcall], rfl⟩
    rw [perform_of_error hcall, bind_of_error hhost]

theorem Call.perform_ignores (c : Call) : Ignores d base c.perform := by
  rw [perform_eq]
  exact (onHost_ignores _).bind push_ignores

theorem composes_ignores : Composes (Ignores d base) where
  pure := pure_commutes
  bind := Commutes.bind
  fault c _ := fault_commutes c
  push := push_ignores
  pop := pop_ignores
  popInt := popInt_ignores
  popPtr := popPtr_ignores
  getLocal k := onFrame_ignores (Frame.getLocal_ignores k)
  setLocal k c := onFrame_ignores (Frame.setLocal_ignores k c)
  popArgs k := onFrame_ignores (Frame.popArgs_ignores k)
  apply _ _ _ := ofResult_commutes _
  loadCell _ _ := ofHeap_ignores _
  loadString _ := ofHeap_ignores _
  arrayLength _ := ofHeap_ignores _
  arrayElement _ _ := ofHeap_ignores _
  storeInt _ _ := onHeap_ignores _
  storePtr _ _ := onHeap_ignores _
  storeChar _ _ := onHeap_ignores _
  allocArray _ _ := onHeap_ignores _

theorem perform_ignores (i : Instr) (hi : ∀ index, i ≠ .call index) :
    Ignores d base (m.perform i) :=
  composes_ignores.perform (fun _ => branch_ignores) (fun index h => absurd h (hi index))
    (fun _ _ => (composes_ignores.prepareNative _).bind Call.perform_ignores)
    fun _ _ => onHeap_ignores _

theorem fetchInstr_ignores : Ignores d base fetchInstr := by
  intro s
  have hframe := frame_under d base s
  rcases inside_or_outside s.frame with hout | ⟨k, hpc, hk⟩
  · have hout' : (s.under d base).frame.pc < 0 ∨
        (s.under d base).frame.code.size ≤ (s.under d base).frame.pc := by
      rwa [hframe]
    refine .inr ?_
    rw [fetchInstr_outside hout, fetchInstr_outside hout', hframe]
    rfl
  · have hlast : { s.under d base with last := k } = { s with last := k }.under d base := by
      rw [under, under]
      split <;> rfl
    rw [CommutesAt, fetchInstr_inside hpc hk,
      fetchInstr_inside (by rwa [hframe]) (by rwa [hframe]), hlast]
    exact onFrame_ignores Frame.decode_ignores _

/-! ## Calls and returns -/

/-- A call suspends the current frame with all that lies underneath. It enters no activation
    with `d` callers if there is one already. -/
theorem enter_commutesAt (hd : d ≤ s.callers.depth) (callee : Frame) :
    CommutesAt (State.under d base) (State.Underflows d) (enter callee) s := by
  refine .inr ?_
  have hne : (s.callers.push s.frame).depth ≠ d := by
    rw [CallStack.depth_push]
    omega
  have hentered : State.under d base ⟨callee, s.callers.push s.frame, s.host, s.last⟩ =
      ⟨callee, (s.callers.push s.frame).under d base, s.host, s.last⟩ := under_of_ne hne
  rw [enter, enter, inside, hentered, push_under, host_under, last_under]

theorem call_commutesAt (hd : d ≤ s.callers.depth) (index : Nat) :
    CommutesAt (State.under d base) (State.Underflows d) (m.call index) s := by
  simp only [call, fault_bind]
  refine .ite (fun _ => fault_commutes _ s) fun _ => ?_
  refine .get_bind (.ite (fun _ => fault_commutes _ s) fun _ => ?_) (by rw [depth_under])
  refine (ofResult_commutes _ s).bind fun f t ht => ?_
  obtain rfl : s = t := by
    cases hf : fetch m.program.functionPool index <;> rw [hf] at ht <;> cases ht
    rfl
  refine .ite (fun _ => pop_ignores.bind (fun _ => fault_commutes _) s) fun _ => ?_
  refine (onFrame_ignores (Frame.popArgs_ignores _) s).bind fun args t ht => ?_
  obtain ⟨g, -, rfl⟩ := onFrame_eq_ok.1 ht
  exact enter_commutesAt (s := { s with frame := g }) hd _

theorem resume_push (v : Cell) (frame caller : Frame) (callers : CallStack) (host : Host)
    (last : Nat) :
    resume v ⟨frame, callers.push caller, host, last⟩ =
      .ok none ⟨{ caller with stack := v :: caller.stack }, callers, host, last⟩ :=
  rfl

/-- A return to an activation with at least `d` callers hands the cell to it, whatever lies
    underneath. -/
theorem resume_commutesAt (hd : d < s.callers.depth) (v : Cell) :
    CommutesAt (State.under d base) (State.Underflows d) (resume v) s := by
  obtain ⟨frame, callers, host, last⟩ := s
  refine .inr ?_
  cases hpop : callers.pop? with
  | none =>
    obtain rfl := CallStack.pop?_eq_none hpop
    exact absurd hd (Nat.not_lt_zero d)
  | some p =>
    obtain ⟨caller, callers⟩ := p
    obtain rfl := CallStack.eq_push_of_pop? hpop
    have hsuspended := push_under d base ⟨caller, callers, host, last⟩
    dsimp only at hsuspended
    rw [under_of_ne (Nat.ne_of_gt hd), hsuspended, resume_push, resume_push, inside,
      State.under, State.under]
    split <;> rfl

theorem leave_commutesAt (hd : d < s.callers.depth) :
    CommutesAt (State.under d base) (State.Underflows d) leave s := by
  simp only [leave, fault_bind]
  refine (pop_ignores s).bind fun v t ht => ?_
  obtain ⟨g, -, rfl⟩ := onFrame_eq_ok.1 ht
  have hne : s.callers.depth ≠ d := Nat.ne_of_gt hd
  refine .get_bind (.ite (fun _ => fault_commutes _ _) fun _ => ?_) ?_
  · exact resume_commutesAt (s := { s with frame := g }) hd v
  · rw [under_of_ne (s := { s with frame := g }) hne]

/-- A step does not see `base`, unless it is a return of the activation with `d` callers. -/
theorem step_commutesAt (base : List Cell) (hd : d ≤ s.callers.depth)
    (hret : s.callers.depth = d → s.opcode? ≠ some Opcode.ret.byte) :
    CommutesAt (State.under d base) (State.Underflows d) m.step s := by
  refine (fetchInstr_ignores s).bind fun i t ht => ?_
  obtain ⟨k, f, hpc, hdecode, hf, rfl⟩ := fetchInstr_eq_ok ht
  by_cases hi : i = .ret
  · subst hi
    refine leave_commutesAt (Nat.lt_of_le_of_ne hd fun heq => hret heq.symm ?_)
    rw [opcode?, hpc, if_pos (Int.natCast_nonneg k)]
    exact ((Instr.decode_eq_ret_iff hpc).1 hdecode).1
  · rw [exec_of_ne_ret hi]
    refine CommutesAt.bind ?_ fun _ t _ => pure_commutes none t
    by_cases hcall : ∃ index, i = .call index
    · obtain ⟨index, rfl⟩ := hcall
      exact call_commutesAt (s := { s with frame := f, last := k }) hd index.toNat
    · exact perform_ignores i (fun index h => hcall ⟨index, h⟩) _

/-- The activation with `d` callers is not left but by its own return. -/
theorem le_depth_step (hd : d ≤ s.callers.depth)
    (hret : s.callers.depth = d → s.opcode? ≠ some Opcode.ret.byte)
    (hstep : m.step s = .ok none t) : d ≤ t.callers.depth := by
  generalize hr : none = r at hstep
  cases step_moved m.obeys_anyHost hstep with
  | stay hpc hstay => rwa [hstay.callers]
  | enter hcall hdepth hvars =>
    rw [entered, CallStack.depth_push]
    omega
  | back hreturn hcallers =>
    rename_i k v caller callers
    have hne : s.callers.depth ≠ d := by
      refine fun heq => hret heq ?_
      rw [opcode?, hreturn.pc, if_pos (Int.natCast_nonneg k)]
      exact hreturn.code
    rw [hcallers, CallStack.depth_push] at hd hne
    dsimp only
    omega
  | done hreturn hcallers hstay => cases hr

/-! ## Runs -/

/-- A stage with `base` underneath the stack of the activation that has `d` callers. -/
def Stage.under (d : Nat) (base : List Cell) : Stage → Stage
  | .running s => .running (s.under d base)
  | .ended o s => .ended o (s.under d base)

theorem Stage.state_under (d : Nat) (base : List Cell) (g : Stage) :
    (g.under d base).state = g.state.under d base := by
  cases g <;> rfl

theorem locationOf_under (d : Nat) (base : List Cell) (s : State) (c : Fault.Cause) :
    locationOf (s.under d base) c = locationOf s c := by
  rw [locationOf, locationOf, frame_under, last_under]
  rfl

theorem Stage.ofStep_inside (r : EStateM.Result Failure State (Option Cell)) :
    ofStep (inside (State.under d base) r) = (ofStep r).under d base := by
  rcases r with ⟨_ | c, t⟩ | ⟨e, t⟩
  · rfl
  · rfl
  · cases e with
    | fault c =>
      change ended (.fault ⟨c, locationOf (t.under d base) c⟩) _ = _
      rw [locationOf_under]
      rfl
    | refused reason | crash => rfl

/-- In `n` steps, the runs from `s` with and without `base` are at the same stage, and the
    activation that `s` is in has not been left. -/
theorem stage_under (base : List Cell) {n : Nat}
    (hret : ∀ i < n, ∀ u, m.stage s i = .running u → u.callers.depth = s.callers.depth →
      u.opcode? ≠ some Opcode.ret.byte)
    (hunderflow : ∀ l t, m.stage s n = .ended (.fault ⟨.stackUnderflow, l⟩) t →
      t.callers.depth ≠ s.callers.depth) :
    m.stage (s.under s.callers.depth base) n = (m.stage s n).under s.callers.depth base ∧
      ∀ u, m.stage s n = .running u → s.callers.depth ≤ u.callers.depth := by
  induction n with
  | zero =>
    refine ⟨rfl, fun u hu => ?_⟩
    cases hu
    exact Nat.le_refl _
  | succ n ih =>
    obtain ⟨hsame, hdepth⟩ := ih (fun i hi => hret i (Nat.lt_succ_of_lt hi)) fun l t ht =>
      hunderflow l t (stage_of_ended ht (Nat.le_succ n))
    cases hstage : m.stage s n with
    | ended o t =>
      -- Both runs have ended and stay where they are.
      have hend := stage_of_ended hstage (Nat.le_succ n)
      rw [hstage] at hsame
      rw [hend, stage_of_ended hsame (Nat.le_succ n)]
      exact ⟨rfl, nofun⟩
    | running u =>
      rw [hstage] at hsame
      have hd := hdepth u hstage
      have hreturn := hret n (Nat.lt_succ_self n) u hstage
      have hnext : m.stage s (n + 1) = .ofStep (m.step u) := by rw [stage, hstage, advance]
      have hnext' : m.stage (s.under s.callers.depth base) (n + 1) =
          .ofStep (m.step (u.under s.callers.depth base)) := by
        rw [stage, hsame, Stage.under, advance]
      refine ⟨?_, fun w hw => ?_⟩
      · rcases step_commutesAt (m := m) base hd hreturn with ⟨e, t, ht, rfl, hown⟩ | hstep
        · rw [hnext, ht] at hunderflow
          exact absurd hown (hunderflow _ t rfl)
        · rw [hnext, hnext', hstep, Stage.ofStep_inside]
      · rw [hnext, Stage.ofStep_eq_running] at hw
        exact le_depth_step hd hreturn hw

/-- What lies underneath the operand stack of an activation is of no consequence to it. The
    run from `s` is compared with the run from the same state with `base` underneath the
    stack of its activation, provided that in `k` steps the run from `s` neither carries out
    a return in this activation nor ends because the stack of this activation underflows.
    Then for `k` steps the two runs are at the same opcodes, and they are in the same state
    (or have ended in it, in the same way), but that `base` lies underneath the stack of this
    activation. -/
theorem base_undisturbed (m : Machine) (s : State) (base : List Cell) (k : Nat)
    (hret : ∀ i < k, ∀ u, m.stage s i = .running u → u.callers.depth = s.callers.depth →
      u.opcode? ≠ some Opcode.ret.byte)
    (hunderflow : ∀ l t, m.stage s k = .ended (.fault ⟨.stackUnderflow, l⟩) t →
      t.callers.depth ≠ s.callers.depth) :
    ∀ i ≤ k,
      m.stage { s with frame := s.frame.under base } i =
        (m.stage s i).under s.callers.depth base ∧
      (m.stage { s with frame := s.frame.under base } i).state.opcode? =
        (m.stage s i).state.opcode? := by
  intro i hi
  have hsame := (stage_under base (fun j hj => hret j (Nat.lt_of_lt_of_le hj hi))
    fun l t ht => hunderflow l t (stage_of_ended ht hi)).1
  rw [under_of_eq rfl] at hsame
  rw [hsame, Stage.state_under, opcode?_under]
  exact ⟨rfl, rfl⟩

/-- A main function that calls the identity and divides by zero. -/
def callsIdentity : Machine where
  program := { functions := some #[
    { body := some #[0x10, 7, 0xB8, 0, 1, 0x60, 0x10, 0, 0x6C] },
    { args := 1, vars := 1, body := some #[0x15, 0, 0xB0] }] }
  natives := #[]

/-- The state in which it starts with `stack`. -/
def callsIdentityStart (stack : List Cell) : State where
  frame := { func := 0, code := #[0x10, 7, 0xB8, 0, 1, 0x60, 0x10, 0, 0x6C], stack := stack }
  callers := .empty
  host := (callsIdentity.boot 0 {}).host
  last := 0

/-- The called function returns, and the fault leaves two cells where they were. -/
theorem base_undisturbed_callsIdentity :
    (∀ i < 7, ∀ u, callsIdentity.stage (callsIdentityStart [.int 5]) i = .running u →
      u.callers.depth = 0 → u.opcode? ≠ some Opcode.ret.byte) ∧
    (∀ l t, callsIdentity.stage (callsIdentityStart [.int 5]) 7 ≠
      .ended (.fault ⟨.stackUnderflow, l⟩) t) ∧
    (callsIdentity.stage (callsIdentityStart [.int 5]) 3).state.callers.depth = 1 ∧
    ∃ t, callsIdentity.stage (callsIdentityStart [.int 5, .ptr 24, .int 1]) 7 =
        .ended (.fault ⟨.divisionByZero, some ⟨0, 8⟩⟩) t ∧
      t.frame.stack = [.ptr 24, .int 1] := by
  have hnever : ∀ i < 7,
      (callsIdentity.stage (callsIdentityStart [.int 5]) i).state.callers.depth = 0 →
      (callsIdentity.stage (callsIdentityStart [.int 5]) i).state.opcode? ≠
        some Opcode.ret.byte := by
    decide +kernel
  have hret : ∀ i < 7, ∀ u, callsIdentity.stage (callsIdentityStart [.int 5]) i = .running u →
      u.callers.depth = 0 → u.opcode? ≠ some Opcode.ret.byte := by
    intro i hi u hu
    have hi := hnever i hi
    rwa [hu] at hi
  obtain ⟨t, hend, hstack, hdepth⟩ : ∃ t, callsIdentity.stage (callsIdentityStart [.int 5]) 7 =
      .ended (.fault ⟨.divisionByZero, some ⟨0, 8⟩⟩) t ∧ t.frame.stack = [] ∧
        t.callers.depth = 0 := by
    refine ⟨(callsIdentity.stage (callsIdentityStart [.int 5]) 7).state, rfl, ?_, ?_⟩ <;>
      decide +kernel
  obtain ⟨hsame, -⟩ := base_undisturbed callsIdentity (callsIdentityStart [.int 5])
    [.ptr 24, .int 1] 7 hret (by rw [hend]; nofun) 7 (Nat.le_refl 7)
  refine ⟨hret, by rw [hend]; nofun, by decide +kernel, t.under 0 [.ptr 24, .int 1], ?_, ?_⟩
  · rw [hend] at hsame
    exact hsame
  · rw [under_of_eq hdepth, Frame.under, hstack]
    rfl

end Machine

end CZero
