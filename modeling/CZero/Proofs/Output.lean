import CZero.CommandLine.Session
import CZero.Proofs.Delivery
import CZero.Proofs.Space
import CZero.Proofs.Terminal

/-!
# Output is delivered in order

Only a native call touches the console (`console_step`), so the output of a run is what
its calls have printed, in the order in which they were made (`transcript`). That holds
between any two steps, whatever is in the buffer then, and when the run has ended, by a
result or by a fault; the last flush of a session brings the rest of it to standard
output.
-/

namespace CZero

open CZero.Action Library Native

namespace Machine

open State

variable {m : Machine} {s t u : State}

/-! ## One step -/

/-- The machine without its native functions. -/
def mute (m : Machine) : Machine :=
  { m with natives := #[] }

theorem mute_obeys (m : Machine) : m.mute.Obeys Host.SameConsole fun _ => True where
  native n hn := by
    cases hn with
    | mk h => cases h
  heap _ _ _ _ := rfl
  fault _ _ := trivial

/-- Only native calls need the native functions. -/
theorem exec_mute {i : Instr} (hi : ∀ index, i ≠ .callNative index) : m.mute.exec i = m.exec i := by
  cases i with
  | callNative index => exact absurd rfl (hi index)
  | _ => rfl

/-- What a step does to the host, however it ends. -/
theorem host_final_step {H : Host → Host → Prop} {E : Failure → Prop} [IsPreorder Host H]
    (ho : m.Obeys H E) (s : State) : H s.host (final m.step s).host := by
  rw [final]
  cases hstep : m.step s with
  | ok r t => exact step_host ho hstep
  | error e t =>
    obtain ⟨-, k, hstay⟩ := step_error ho hstep
    exact hstay.host

theorem host_of_fetchInstr {i : Instr} (h : fetchInstr s = .ok i t) : t.host = s.host := by
  obtain ⟨k, f, -, -, -, rfl⟩ := fetchInstr_eq_ok h
  rfl

/-- A native call that cannot be prepared leaves the host alone. -/
theorem host_of_prepareNative {index : Nat} {e : Failure}
    (h : m.prepareNative index s = .error e t) : t.host = s.host := by
  simp only [prepareNative, fault_bind] at h
  split at h
  · cases h
    rfl
  have hindex : index < m.program.nativePool.size := by omega
  rw [fetch_of_lt hindex, bind_of_ok (ofResult_ok _ _)] at h
  rcases bind_eq_error.1 h with hargs | ⟨args, u, hargs, hcall⟩
  · obtain ⟨g, -, rfl⟩ := onFrame_eq_error.1 hargs
    rfl
  · obtain ⟨g, -, rfl⟩ := onFrame_eq_ok.1 hargs
    rcases hslot : m.natives[m.program.nativePool[index].slot.toNat]? with _ | _ | native <;>
      rw [hslot] at hcall <;> cases hcall <;> rfl

theorem Call.host_perform (c : Call) (s : State) :
    (final c.perform s).host = final (c.native.call c.args) s.host := by
  rw [final, final]
  cases hcall : c.native.call c.args s.host with
  | ok v host => rw [perform_of_ok hcall]
  | error e host => rw [perform_of_error hcall]

/-- A step that fetches a native call prepares it, and then carries it out. -/
theorem step_of_fetch {index : UInt16} (hfetch : fetchInstr s = .ok (.callNative index) u) :
    m.step s = (do
      let c ← m.prepareNative index.toNat
      c.perform
      return none : Action State (Option Cell)) u := by
  have hret : Instr.callNative index ≠ .ret := by rintro ⟨⟩
  rw [step, bind_of_ok hfetch, exec_of_ne_ret hret, perform, bind_assoc]

/-- The step that makes a native call leaves the host as the call does. -/
theorem step_of_nextCall {c : Call} {host : Host} (h : m.nextCall? s = some (c, host)) :
    host = s.host ∧ some c.native ∈ m.natives ∧
      (final m.step s).host = final (c.native.call c.args) s.host := by
  rw [nextCall?] at h
  split at h
  · next i u hfetch =>
    split at h
    · next c w hprepare =>
      cases h
      obtain ⟨ref, rest, -, -, hslot, -, -, hw⟩ := prepareNative_eq_ok_iff.1 hprepare
      have hhost : w.host = s.host := by
        rw [hw, ← host_of_fetchInstr hfetch]
      refine ⟨hhost, Array.mem_of_getElem? hslot, ?_⟩
      rw [← hhost, ← c.host_perform, final, step_of_fetch hfetch, bind_of_ok hprepare, final]
      cases hperform : c.perform w with
      | ok _ t => rw [bind_of_ok hperform, pure_apply]
      | error e t => rw [bind_of_error hperform]
    · cases h
  · cases h

/-- A step without a native call leaves the console alone. -/
theorem console_step (h : m.nextCall? s = none) :
    (final m.step s).host.console = s.host.console := by
  have hmute : (final m.mute.step s).host.console = s.host.console :=
    host_final_step m.mute_obeys s
  cases hfetch : fetchInstr s with
  | error e t => rwa [final, step, bind_of_error hfetch] at hmute ⊢
  | ok i t =>
    by_cases hi : ∃ index, i = .callNative index
    · obtain ⟨index, rfl⟩ := hi
      simp only [nextCall?, hfetch] at h
      split at h
      · cases h
      · next e u hprepare =>
        have hhost : u.host = s.host :=
          (host_of_prepareNative hprepare).trans (host_of_fetchInstr hfetch)
        rw [final, step_of_fetch hfetch, bind_of_error hprepare]
        exact congrArg Host.console hhost
    · -- No native function has a part in the step, so it is one of the mute machine too.
      rw [final, step, bind_of_ok hfetch, exec_mute fun index heq => hi ⟨index, heq⟩] at hmute
      rwa [final, step, bind_of_ok hfetch]

/-! ## Runs -/

/-- The native call that the next step of a run makes, if it makes one. -/
def callAt? (m : Machine) : Stage → Option (Call × Host)
  | .running s => m.nextCall? s
  | .ended .. => none

/-- The native calls of the first `n` steps, each with the host on which it was made. -/
def callsMade (m : Machine) (s : State) : Nat → List (Call × Host)
  | 0 => []
  | n + 1 => m.callsMade s n ++ (m.callAt? (m.stage s n)).toList

/-- Whether a call on the host returns. -/
def Call.returns (c : Call) (h : Host) : Bool :=
  match c.native.call c.args h with
  | .ok .. => true
  | .error .. => false

/-- What the calls of the first `n` steps print, those that return, one after the other. -/
def transcript (m : Machine) (s : State) (n : Nat) : Bytes :=
  ((m.callsMade s n).filter fun (c, h) => c.returns h).flatMap fun (c, h) =>
    payload c.native.name c.args h.heap

theorem transcript_succ (m : Machine) (s : State) (n : Nat) :
    m.transcript s (n + 1) = m.transcript s n ++
      (m.callAt? (m.stage s n)).elim [] fun (c, h) => said c.native c.args h := by
  rw [transcript, callsMade, List.filter_append, List.flatMap_append, ← transcript]
  congr 1
  rcases m.callAt? (m.stage s n) with _ | ⟨c, h⟩
  · rfl
  · cases hcall : c.native.call c.args h <;> simp [Call.returns, said, hcall]

/-- One step of a run adds to the output what its call prints. -/
theorem accepts_advance (hm : m.UsesLibrary) {g : Stage} (hg : g.state.host.console.Working) :
    g.state.host.console.Accepts
      ((m.callAt? g).elim [] fun (c, h) => said c.native c.args h)
      (m.advance g).state.host.console := by
  cases g with
  | ended o u => exact hg.accepts_nil
  | running u =>
    have hstate : (m.advance (.running u)).state = final m.step u := Stage.state_ofStep (m.step u)
    rw [hstate, callAt?, Stage.state]
    rcases hcall : m.nextCall? u with _ | ⟨c, h⟩
    · rw [console_step hcall]
      exact hg.accepts_nil
    · obtain ⟨rfl, hnative, hstep⟩ := step_of_nextCall hcall
      rw [hstep]
      exact accepts_call (hm _ hnative) c.args hg

/-- The output of a run is the transcript of its calls. -/
theorem accepts_stage (hm : m.UsesLibrary) (hs : s.host.console.Working) (n : Nat) :
    s.host.console.Accepts (m.transcript s n) (m.stage s n).state.host.console := by
  induction n with
  | zero => exact hs.accepts_nil
  | succ n ih =>
    rw [transcript_succ, stage]
    exact ih.trans (accepts_advance hm ih.working)

theorem usesLibrary_of_slots (h : m.natives = Library.slots) : m.UsesLibrary := by
  intro n hn
  rw [h] at hn
  obtain ⟨n', hn', heq⟩ := Array.mem_map.1 hn
  exact Option.some.inj heq ▸ hn'

end Machine

/-! ## Flushing -/

namespace Library

variable {n : Native} {args : List Cell} {s t : Host} {v : Cell}

/-- A flush that returns leaves nothing in the buffer. -/
theorem pending_of_flush (hn : n ∈ table) (hname : n.name = "flush") (hs : s.console.Working)
    (h : n.call args s = .ok v t) : t.console.pending = #[] := by
  obtain rfl := eq_of_name_eq hn flush_mem_table hname
  by_cases hargs : args.length = 0
  · rw [offered_call hargs, flush_eq hs] at h
    cases h
    rfl
  · rw [offered_call_of_ne hargs] at h
    cases h

/-- A call to read a line does not touch the host at all, or it takes its input when all
    output has been written out. -/
theorem readLine_after_flush (hn : n ∈ table) (hname : n.name = "readline")
    (hs : s.console.Working) : (∃ e, n.call args s = .error e s) ∨
      ∃ t : Host, t.console.pending = #[] ∧ t.console.output = s.console.output ∧
        t.console.input = s.console.input ∧ n.call args s = takeInput t := by
  obtain rfl := eq_of_name_eq hn readLine_mem_table hname
  by_cases hargs : args.length = 0
  · rw [offered_call hargs]
    refine .inr ⟨⟨s.heap, s.console.emptied⟩, rfl, ?_, rfl, readLine_eq hs⟩
    exact hs.accepts_emptied.output.trans (List.append_nil _)
  · rw [offered_call_of_ne hargs]
    exact .inl ⟨_, rfl⟩

end Library

/-! ## Sessions -/

namespace CommandLine

open Machine

variable {fs fs' : Files} {args : List Bytes} {job : Job}

/-- The job of a session: a well-formed program with all native functions. -/
theorem prepare_eq_ok (h : prepare fs args = (.ok job, fs')) : ∃ o path,
    parse args = .ok (o, [path]) ∧ job.printResult = o.printResult ∧
      job.machine.natives = Library.slots ∧ job.machine.program.WellFormed := by
  rw [prepare] at h
  split at h
  · cases h
  · next o path hparse =>
    split at h
    · cases h
    · next c hconfig =>
      dsimp only at h
      split at h
      · cases h
      · next p l hload =>
        cases h
        have hsound :=
          Loader.sound_new (openLog fs c o) (o.writeImage || c.writeImages) Image.cbor
        exact ⟨o, path, hparse, rfl, rfl, (hsound.of_load hload).1⟩
  · cases h

/-- What a session writes behind the output of its program: the result, if there is one and it
    was asked for. -/
def resultLine (o : Options) : Outcome → Bytes
  | .value n => if o.printResult then decimal n.toInt ++ utf8 "\n" else []
  | _ => []

theorem stdout_ending {o : Options} (h : job.printResult = o.printResult) (runId : Bytes)
    (outcome : Outcome) : (job.ending runId outcome).stdout = resultLine o outcome := by
  cases outcome with
  | value n => rw [Job.ending, resultLine, h]
  | _ => rfl

/-- The last flush brings all output to standard output. -/
theorem reached_flushed {c : Console} (hc : c.Working) (bs : Bytes) :
    reached (flushed c) bs = c.output ++ bs := by
  have hemptied : flushed c = c.emptied := by
    rw [flushed, Console.flush_of_working hc]
  have hrefusal : c.emptied.refusal.isSome = false := by
    rw [hc.accepts_emptied.working.refusal]
    rfl
  rw [hemptied, reached, hrefusal, Console.output, Console.emptied, Array.toList_append]
  rfl

/-- What reaches standard output in a session is what its run has brought there when it
    ends, and what is added then. -/
theorem stdout_run (hjob : prepare fs args = (.ok job, fs')) {console : Console} {s : State}
    (hstart : job.machine.start? (job.machine.boot job.heapLimit console) = some s)
    (runId : Bytes) (fuel : Nat) : (run fs args console runId fuel).map (·.stdout) =
      (job.machine.stage s fuel).result?.map fun (outcome, t) =>
        reached (flushed t.host.console) (job.ending runId outcome).stdout := by
  simp only [run, hjob, execute, hstart, run_eq_result?, Option.map_map]
  rfl

/-- A session delivers the output of its program completely and in order. Between any two
    steps of the run, what has reached standard output followed by what is in the buffer is
    what the native calls that have returned were to print, one after the other. After a
    flush that returned nothing is left in the buffer, and neither is when a call to read a
    line takes its input. When the session ends, all of it has reached standard output,
    followed by a line with the result exactly if the option asks for it and the program has
    returned normally. -/
theorem output_in_order (hjob : prepare fs args = (.ok job, fs')) (stdin : Bytes) :
    ∃ o path s, parse args = .ok (o, [path]) ∧
      job.machine.start? (job.machine.boot job.heapLimit { input := stdin }) = some s ∧
      (∀ n, (job.machine.stage s n).state.host.console.output = job.machine.transcript s n) ∧
      (∀ n c h, job.machine.callAt? (job.machine.stage s n) = some (c, h) →
        (c.native.name = "flush" →
          ∀ v t, c.native.call c.args h = .ok v t → t.console.pending = #[]) ∧
        (c.native.name = "readline" → (∃ e, c.native.call c.args h = .error e h) ∨
          ∃ t : Host, t.console.pending = #[] ∧ t.console.output = h.console.output ∧
            t.console.input = h.console.input ∧ c.native.call c.args h = takeInput t)) ∧
      ∀ runId fuel, (run fs args { input := stdin } runId fuel).map (·.stdout) =
        (job.machine.stage s fuel).result?.map fun (outcome, _) =>
          job.machine.transcript s fuel ++ resultLine o outcome := by
  obtain ⟨o, path, hparse, hprint, hnatives, hwell⟩ := prepare_eq_ok hjob
  obtain ⟨s, hstart⟩ :=
    exists_start hwell.1 (job.machine.boot job.heapLimit { input := stdin })
  have hm := usesLibrary_of_slots hnatives
  have hconsole : s.host.console = { input := stdin } := by
    rw [host_start hstart]
    rfl
  have hworking : s.host.console.Working := by
    rw [hconsole]
    exact ⟨rfl, rfl⟩
  have haccepts (n : Nat) := accepts_stage hm hworking n
  have houtput (n : Nat) :
      (job.machine.stage s n).state.host.console.output = job.machine.transcript s n := by
    rw [(haccepts n).output, hconsole]
    rfl
  refine ⟨o, path, s, hparse, hstart, houtput, fun n c h hcall => ?_, fun runId fuel => ?_⟩
  · cases hstage : job.machine.stage s n with
    | ended outcome u =>
      rw [hstage] at hcall
      cases hcall
    | running u =>
      have hu := (haccepts n).working
      rw [hstage] at hcall hu
      obtain ⟨rfl, hnative, -⟩ := step_of_nextCall hcall
      exact ⟨fun hname v t => pending_of_flush (hm _ hnative) hname hu,
        fun hname => readLine_after_flush (hm _ hnative) hname hu⟩
  · -- The run has ended by now or it has not; how it ended makes no difference to the output.
    have hfuel := (haccepts fuel).working
    have houtput := houtput fuel
    rw [stdout_run hjob hstart]
    cases hstage : job.machine.stage s fuel with
    | running u => rfl
    | ended outcome u =>
      rw [hstage, Stage.state] at hfuel houtput
      simp only [Stage.result?, Option.map_some]
      rw [reached_flushed hfuel, houtput, stdout_ending hprint]

/-- A text that prints a string and returns 7, as the file `a.bc0`. -/
def greeting : Files where
  nodes := [(Loader.sourceAt [] (utf8 "a"), .file (utf8
    ("C0 C0 FF EE 00 09 00 00 00 03 68 69 00 00 01 00 00 00 00 00 0A "
      ++ "14 00 00 B7 00 00 57 10 07 B0 00 01 00 01 00 06")) 0)]
  clock := 0

/-- The arguments that ask to run it and to print its result. -/
def greet : List Bytes :=
  [utf8 "-print-result", utf8 "a.bc0"]

theorem output_in_order_greeting :
    ∃ job fs' o path s, prepare greeting greet = (.ok job, fs') ∧
      parse greet = .ok (o, [path]) ∧
      (∀ n, (job.machine.stage s n).state.host.console.output = job.machine.transcript s n) ∧
      ((job.machine.stage s 5).result?.map fun (outcome, _) =>
        job.machine.transcript s 5 ++ resultLine o outcome) = some (utf8 "hi7\n") := by
  have hok : (prepare greeting greet).1.isOk := by decide +kernel
  have hstdout : (run greeting greet {} [] 5).map (·.stdout) = some (utf8 "hi7\n") := by
    decide +kernel
  rcases hprepare : prepare greeting greet with ⟨e | job, fs'⟩
  · rw [hprepare] at hok
    cases hok
  · obtain ⟨o, path, s, hparse, -, houtput, -, hrun⟩ := output_in_order hprepare []
    exact ⟨job, fs', o, path, s, rfl, hparse, houtput, (hrun [] 5).symm.trans hstdout⟩

end CommandLine

end CZero
