import CZero.Proofs.Guards
import CZero.Proofs.Heap.Space

/-!
# The limit on the heap bounds the arena

A machine that runs with a limit on its heap asks for no more bytes than that, and each
of them takes at most one word (`Pays`). So the arena is bounded by the limit, up to the
words that nothing was counted for: one for each instruction that asks for a block of no
bytes, and one for each execution that the limit has stopped (`Machine.unpaid`). The
bound holds in every state that a machine reaches, in one execution after the other
(`size_bounded`). Blocks of no bytes are not bounded by the limit (`size_filling`).
-/

namespace CZero

open CZero.Action HeapState

namespace State

variable {α : Type}

theorem onFrame_pays (x : Action Frame α) : Pays (onFrame x) := by
  refine pays_of_same fun s => ?_
  cases hx : x s.frame <;> simp only [final, onFrame, hx] <;> rfl

theorem onHost_pays {x : Action Host α} (hx : Pays x) : Pays (onHost x) where
  ok h := by
    obtain ⟨k, hk, rfl⟩ := onHost_eq_ok.1 h
    exact hx.ok hk
  error h := by
    obtain ⟨k, hk, rfl⟩ := onHost_eq_error.1 h
    exact hx.error hk

theorem onHeap_pays {x : Action Heap α} (hx : Pays x) : Pays (onHeap x) :=
  onHost_pays (Host.onHeap_pays hx)

theorem ofHeap_pays (f : Heap → Except Failure α) : Pays (ofHeap f) := by
  refine onHost_pays (pays_of_same fun s => ?_)
  cases hf : f s.heap <;> simp only [final, Host.ofHeap, hf]

theorem push_pays (c : Cell) : Pays (push c) :=
  onFrame_pays _

theorem pop_pays : Pays pop :=
  onFrame_pays _

theorem popInt_pays : Pays popInt :=
  onFrame_pays _

theorem popPtr_pays : Pays popPtr :=
  onFrame_pays _

end State

namespace Machine

open State

variable {m : Machine} {s t : State}

/-! ## Instructions -/

theorem branch_pays (offset : Int16) : Pays (get >>= fun s : State => branch s.last offset) :=
  pays_get.bind fun _ => onFrame_pays _

theorem call_pays (index : Nat) : Pays (m.call index) := by
  simp only [call, fault_bind]
  refine .ite (pays_fault _) (pays_get.bind fun s => .ite (pays_fault _) ?_)
  refine (pays_ofResult _).bind fun f => .ite (pop_pays.bind fun _ => pays_fault _) ?_
  exact (onFrame_pays _).bind fun args => pays_of_same fun _ => rfl

/-- A failure that a call passes on leaves no more unpaid than before. -/
theorem unpaid_nativeFailure (slot : Nat) (e : Failure) :
    (nativeFailure slot e).unpaid = e.unpaid := by
  cases e <;> rfl

theorem Call.perform_pays {c : Call} (hc : Pays (c.native.call c.args)) : Pays c.perform where
  ok {s u t} h := by
    cases hr : c.native.call c.args s.host with
    | ok v host =>
      rw [perform_of_ok hr] at h
      cases h
      exact hc.ok hr
    | error e host =>
      rw [perform_of_error hr] at h
      cases h
  error {s e t} h := by
    cases hr : c.native.call c.args s.host with
    | ok v host =>
      rw [perform_of_ok hr] at h
      cases h
    | error e host =>
      rw [perform_of_error hr] at h
      cases h
      rw [unpaid_nativeFailure]
      exact hc.error hr

theorem composes_pays : Composes Pays where
  pure := pays_pure
  bind := Pays.bind
  fault c _ := pays_fault c
  push := push_pays
  pop := pop_pays
  popInt := popInt_pays
  popPtr := popPtr_pays
  getLocal _ := onFrame_pays _
  setLocal _ _ := onFrame_pays _
  popArgs _ := onFrame_pays _
  apply _ _ _ := pays_ofResult _
  loadCell _ _ := ofHeap_pays _
  loadString _ := ofHeap_pays _
  arrayLength _ := ofHeap_pays _
  arrayElement _ _ := ofHeap_pays _
  storeInt p _ := onHeap_pays (Heap.store_pays p _)
  storePtr p _ := onHeap_pays (Heap.store_pays p _)
  storeChar p _ := onHeap_pays (Heap.store_pays p _)
  allocArray n _ := onHeap_pays (Heap.allocArray_pays n _)

section

variable (hm : ∀ n, some n ∈ m.natives → n.PaysAlways)
include hm

/-- Every instruction pays but one that asks for a block of no bytes. -/
theorem perform_pays {i : Instr} (hi : i ≠ .new 0) : Pays (m.perform i) := by
  refine composes_pays.perform (fun _ => branch_pays) (fun index _ => call_pays index.toNat)
    (fun index _ => (composes_pays.prepareNative index.toNat).bind_of ?_) fun size hsize => ?_
  · rintro c ⟨s, t, hc⟩
    obtain ⟨ref, rest, -, -, hslot, -⟩ := prepareNative_eq_ok_iff.1 hc
    exact Call.perform_pays (hm c.native (Array.mem_of_getElem? hslot) c.args)
  · have hpos : 0 < size.toNat := Nat.pos_of_ne_zero fun hzero =>
      hi (hsize.trans (congrArg Instr.new (UInt8.toNat_inj.1 hzero)))
    exact onHeap_pays (Heap.alloc_pays (by omega))

omit hm in
theorem leave_pays : Pays leave := by
  simp only [leave, fault_bind]
  refine pop_pays.bind fun result => pays_get.bind fun s => .ite (pays_fault _) ?_
  refine pays_of_same fun s => ?_
  cases hcallers : s.callers.pop? <;> simp only [final, resume, hcallers]
  rfl

omit hm in
theorem fetchInstr_pays : Pays fetchInstr := by
  refine pays_of_same fun s => ?_
  rcases inside_or_outside s.frame with hout | ⟨k, hpc, hk⟩
  · rw [final, fetchInstr_outside hout]
  · rw [final, fetchInstr_inside hpc hk]
    cases hdecode : Instr.decode s.frame <;> simp only [onFrame, hdecode] <;> rfl

theorem exec_pays {i : Instr} (hi : i ≠ .new 0) : Pays (m.exec i) := by
  by_cases hret : i = .ret
  · subst hret
    exact leave_pays
  · rw [exec_of_ne_ret hret]
    exact (perform_pays hm hi).bind fun _ => pays_pure none

omit hm in
/-- A block of no bytes takes a word that is not paid for. -/
theorem charged_exec_new_zero (s : State) :
    (heap s).Charged 1 (heap (endState (m.exec (.new 0) s))) := by
  have halloc := Heap.alloc_eq s.host.heap (Heap.toNat_le_maxBlock 0)
  rw [exec_of_ne_ret (i := .new 0) nofun, perform, bind_assoc]
  by_cases hover : s.host.heap.overLimit (0 : UInt8).toNat
  · rw [if_pos hover] at halloc
    have hstop : onHeap (Heap.alloc (0 : UInt8).toNat) s = .error _ s :=
      onHost_eq_error.2 ⟨_, Host.onHeap_eq_error.2 ⟨_, halloc, rfl⟩, rfl⟩
    rw [bind_of_error hstop]
    exact .refl 1 _
  · rw [if_neg hover] at halloc
    have hgrant : onHeap (Heap.alloc (0 : UInt8).toNat) s = .ok _ _ :=
      onHost_eq_ok.2 ⟨_, Host.onHeap_eq_ok.2 ⟨_, halloc, rfl⟩, rfl⟩
    rw [bind_of_ok hgrant]
    exact Heap.charged_granted_zero hover

end

/-! ## Steps -/

/-- The words that an instruction takes without paying for them, if nothing stops it. -/
def emptyBlocks (i : Instr) : Nat :=
  if i = .new 0 then 1 else 0

/-- The words that the next step may take without paying for them: one if it asks for a
    block of no bytes, and one if the limit stops it. -/
def unpaid (m : Machine) (s : State) : Nat :=
  (match fetchInstr s with
    | .ok i _ => emptyBlocks i
    | .error .. => 0) +
  match m.step s with
    | .ok .. => 0
    | .error e _ => e.unpaid

theorem exec_charged (hm : ∀ n, some n ∈ m.natives → n.PaysAlways) (i : Instr) (s : State) :
    (∀ r t, m.exec i s = .ok r t → (heap s).Charged (emptyBlocks i) (heap t)) ∧
      ∀ e t, m.exec i s = .error e t → (heap s).Charged (emptyBlocks i + e.unpaid) (heap t) := by
  by_cases hi : i = .new 0
  · subst hi
    have hcharged := charged_exec_new_zero (m := m) s
    refine ⟨fun r t h => ?_, fun e t h => ?_⟩ <;> rw [h, endState] at hcharged
    · exact hcharged
    · exact hcharged.mono (Nat.le_add_right 1 _)
  · rw [emptyBlocks, if_neg hi]
    refine ⟨fun r t h => (exec_pays hm hi).ok h, fun e t h => ?_⟩
    rw [Nat.zero_add]
    exact (exec_pays hm hi).error h

/-- A step takes no more than a word for each byte it counts, and what it leaves unpaid. -/
theorem step_charged (hm : ∀ n, some n ∈ m.natives → n.PaysAlways) (s : State) :
    (heap s).Charged (m.unpaid s) (heap (endState (m.step s))) := by
  cases hfetch : fetchInstr s with
  | error e t =>
    have hstep : m.step s = .error e t := bind_of_error hfetch
    simp only [unpaid, hfetch, hstep, endState, Nat.zero_add]
    exact fetchInstr_pays.error hfetch
  | ok i t =>
    have hstep : m.step s = m.exec i t := bind_of_ok hfetch
    have hcharged := exec_charged hm i t
    cases hexec : m.exec i t with
    | ok r u =>
      simp only [unpaid, hfetch, hstep, hexec, endState, Nat.add_zero]
      exact (fetchInstr_pays.ok hfetch).zero_trans (hcharged.1 r u hexec)
    | error e u =>
      simp only [unpaid, hfetch, hstep, hexec, endState]
      exact (fetchInstr_pays.ok hfetch).zero_trans (hcharged.2 e u hexec)

/-! ## Runs -/

/-- The machine comes, from `r` and in one execution after the other, to the stage `g`, and
    `z` words may be unpaid on the way. -/
inductive Reaches (m : Machine) (r : Residue) : Stage → Nat → Prop
  | start {s : State} : m.start? r = some s → Reaches m r (.running s) 0
  | step {s : State} {z : Nat} :
    Reaches m r (.running s) z → Reaches m r (.ofStep (m.step s)) (z + m.unpaid s)
  | again {o : Outcome} {s t : State} {z : Nat} :
    Reaches m r (.ended o s) z → m.start? s.residue = some t → Reaches m r (.running t) z

theorem Stage.state_ofStep (x : EStateM.Result Failure State (Option Cell)) :
    (Stage.ofStep x).state = endState x := by
  rcases x with ⟨_ | c, t⟩ | ⟨e, t⟩ <;> rfl

theorem Reaches.charged (hm : ∀ n, some n ∈ m.natives → n.PaysAlways) {r : Residue} {g : Stage}
    {z : Nat} (h : m.Reaches r g z) : r.host.heap.Charged z g.state.host.heap := by
  induction h with
  | start hs =>
    rw [← host_start hs]
    exact .refl 0 _
  | step _ ih =>
    rw [Stage.state_ofStep]
    exact ih.trans (step_charged hm _)
  | again _ ht ih =>
    rw [Stage.state, host_start ht]
    exact ih

/-- The first heap of a machine has the reserved word and the block of the constants, and
    nothing of it is counted. -/
theorem initialHeap_charge (m : Machine) :
    m.initialHeap.size = Heap.wordSize + Heap.padded m.program.stringPool.size ∧
      m.initialHeap.used = 0 := by
  rw [initialHeap, Heap.mapReadOnly_eq]
  simp [Heap.size, Heap.empty]

/-- The limit bounds the arena, up to blocks of no bytes. A machine whose native functions
    are those of the library, or others that pay for the memory they take, is booted with
    a limit. In every stage that it comes to, in one execution after the other, it has
    asked for no more bytes than the limit says, and the arena is no larger than the
    reserved word, the block of the constants, eight bytes for each byte of the limit, and
    eight for each block of no bytes that an instruction has asked for and for each
    execution that the limit has stopped. -/
theorem size_bounded (m : Machine)
    (hm : ∀ n, some n ∈ m.natives → n ∈ Library.table ∨ n.PaysAlways) {L : Int} (hL : 0 < L)
    {console : Console} {g : Stage} {z : Nat} (h : m.Reaches (m.boot L console) g z) :
    g.state.host.heap.used ≤ L ∧
      g.state.host.heap.size ≤
        8 + max 8 ((m.program.stringPool.size + 7) / 8 * 8) + 8 * L + 8 * z := by
  have hpays : ∀ n, some n ∈ m.natives → n.PaysAlways := fun n hn =>
    (hm n hn).elim Library.pays_of_mem_table id
  have hcharged := h.charged hpays
  obtain ⟨hsize, hzero⟩ := m.initialHeap_charge
  change (m.boot L console).host.heap.size = _ at hsize
  change (m.boot L console).host.heap.used = 0 at hzero
  have hused : g.state.host.heap.used ≤ L := by
    refine hcharged.kept hL ?_
    rw [hzero]
    exact Int.le_of_lt hL
  refine ⟨hused, ?_⟩
  have hspace := hcharged.space
  simp only [Heap.wordSize, Heap.padded, hsize, hzero] at hspace
  omega

/-- A program that asks for a block of no bytes, drops its address and starts again. -/
def filling : Machine where
  program := { functions := some #[{ body := some #[0xBB, 0, 0x57, 0xA7, 0xFF, 0xFD] }] }
  natives := Library.table.map some

theorem size_bounded_filling :
    ∃ g z, filling.Reaches (filling.boot 1 {}) g z ∧ g.state.host.heap.size = 24 ∧ z = 1 ∧
      (24 : Int) ≤ 8 + max 8 ((filling.program.stringPool.size + 7) / 8 * 8) + 8 * 1 + 8 * z := by
  have hnatives : ∀ n, some n ∈ filling.natives → n ∈ Library.table ∨ n.PaysAlways := by
    intro n hn
    obtain ⟨n', hn', ⟨⟩⟩ := Array.mem_map.1 hn
    exact .inl hn'
  have hreach := Reaches.step (m := filling) (r := filling.boot 1 {}) (.start rfl)
  exact ⟨_, _, hreach, rfl, rfl, (size_bounded filling hnatives (by decide) hreach).2⟩

/-- The states of that program, with the limit 1. -/
def fillingAt (pc : Int) (stack : List Cell) (mem : Array UInt8) (last : Nat) : State where
  frame := { func := 0, code := #[0xBB, 0, 0x57, 0xA7, 0xFF, 0xFD], pc, stack, locals := #[] }
  callers := .empty
  host := ⟨{ mem, limit := 1, guardLo := 8, guardHi := 8 }, {}⟩
  last := last

/-- A round makes the arena one word larger. -/
theorem after_round (mem : Array UInt8) (last n : Nat) :
    filling.after (n + 3) (fillingAt 0 [] mem last) =
      filling.after n (fillingAt 0 [] (mem ++ Array.replicate 8 0) 3) := by
  have hnew : filling.step (fillingAt 0 [] mem last) =
      .ok none (fillingAt 2 [.ptr (Heap.addrOf mem.size)] (mem ++ Array.replicate 8 0) 0) :=
    rfl
  have hpop (c : Cell) (mem : Array UInt8) :
      filling.step (fillingAt 2 [c] mem 0) = .ok none (fillingAt 3 [] mem 2) :=
    rfl
  have hgoto (mem : Array UInt8) :
      filling.step (fillingAt 3 [] mem 2) = .ok none (fillingAt 0 [] mem 3) :=
    rfl
  rw [after_step hnew, after_step (hpop _ _), after_step (hgoto _)]

theorem after_rounds (n : Nat) (mem : Array UInt8) (last : Nat) :
    ∃ mem' last', filling.after (3 * n) (fillingAt 0 [] mem last) =
      some (fillingAt 0 [] mem' last') ∧ mem'.size = mem.size + 8 * n := by
  induction n generalizing mem last with
  | zero => exact ⟨mem, last, rfl, rfl⟩
  | succ n ih =>
    obtain ⟨mem', last', hrun, hsize⟩ := ih (mem ++ Array.replicate 8 0) 3
    refine ⟨mem', last', (after_round mem last (3 * n)).trans hrun, ?_⟩
    rw [hsize, Array.size_append, Array.size_replicate]
    omega

/-- The limit alone bounds nothing: with a limit of one byte, the arena of the program
    becomes larger than any bound, though nothing is ever counted. -/
theorem size_filling :
    ∃ s₀, filling.start? (filling.boot 1 {}) = some s₀ ∧ ∀ B : Nat, ∃ n s,
      filling.after n s₀ = some s ∧ s.host.heap.used = 0 ∧ B < s.host.heap.size := by
  have hstart : filling.start? (filling.boot 1 {}) =
      some (fillingAt 0 [] (Array.replicate 16 0) 0) := by
    decide +kernel
  refine ⟨_, hstart, fun B => ?_⟩
  obtain ⟨mem, last, hrun, hsize⟩ := after_rounds B (Array.replicate 16 0) 0
  refine ⟨3 * B, _, hrun, rfl, ?_⟩
  change B < mem.size
  rw [hsize, Array.size_replicate]
  omega

end Machine

end CZero
