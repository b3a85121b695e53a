import Mathlib.Data.List.Chain
import CZero.Proofs.Run

/-!
# The chain of calls

The code of a program is not verified before it runs, and a branch may lead into the
operands of an instruction. The chain of activations is sound all the same: each is
one of a function of the program, the bottom one of the main function, and each that
is suspended stands right behind a call of the function above it.

It holds at the start of a run (`callChain_start`), every step preserves it
(`callChain_step`), and so it holds throughout (`callChain_throughout`).
-/

namespace CZero

namespace Frame

/-- `g` is an activation of a function of the program, with its code and as many
    variables as it declares. -/
def Activates (p : Program) (g : Frame) : Prop :=
  ∃ f, p.functionPool[g.func]? = some f ∧ g.code = f.code ∧ g.locals.size = f.vars.toNat

/-- `g` is suspended right behind a call of the function at `index`. -/
def BehindCall (g : Frame) (index : Nat) : Prop :=
  ∃ k : Nat, g.pc = k + 3 ∧ k + 3 ≤ g.code.size ∧ WordInstrAt g.code k .invokestatic index

theorem Activates.of_sameBody {p : Program} {g h : Frame} (hg : g.Activates p)
    (hgh : g.SameBody h) : h.Activates p := by
  obtain ⟨f, hf, hcode, hvars⟩ := hg
  exact ⟨f, hgh.func ▸ hf, hgh.code.trans hcode, hgh.vars.trans hvars⟩

end Frame

/-- The activations `fs`, the most recent first, are a chain of calls that the main
    function of the program began. -/
structure CallChain (p : Program) (fs : List Frame) : Prop where
  /-- The bottom activation is one of the main function. -/
  bottom : fs.getLast?.map Frame.func = some 0
  /-- Every activation is one of a function of the program. -/
  bodies : ∀ g ∈ fs, g.Activates p
  /-- Every suspended activation waits for the one above it. -/
  links : fs.IsChain fun above below => below.BehindCall above.func

namespace CallChain

variable {p : Program} {g h : Frame} {fs : List Frame}

theorem tail (hfs : CallChain p (g :: h :: fs)) : CallChain p (h :: fs) where
  bottom := by
    rw [← hfs.bottom, List.getLast?_cons_cons]
  bodies f hf := hfs.bodies f (List.mem_cons_of_mem g hf)
  links := (List.isChain_cons_cons.1 hfs.links).2

/-- What a chain says of the top activation is its function and its body. -/
theorem replace_head (hfs : CallChain p (g :: fs)) (hgh : g.SameBody h) :
    CallChain p (h :: fs) where
  bottom := by
    rw [← hfs.bottom]
    -- The top activation is the bottom one only if it is alone.
    cases fs with
    | nil => exact congrArg some hgh.func
    | cons f fs => rw [List.getLast?_cons_cons, List.getLast?_cons_cons]
  bodies := by
    rintro f (_ | ⟨_, hf⟩)
    · exact (hfs.bodies g List.mem_cons_self).of_sameBody hgh
    · exact hfs.bodies f (List.mem_cons_of_mem g hf)
  links := by
    cases fs with
    | nil => exact List.isChain_singleton h
    | cons f fs =>
      obtain ⟨hlink, hlinks⟩ := List.isChain_cons_cons.1 hfs.links
      exact List.isChain_cons_cons.2 ⟨hgh.func ▸ hlink, hlinks⟩

theorem push (hfs : CallChain p (g :: fs)) (hh : h.Activates p) (hg : g.BehindCall h.func) :
    CallChain p (h :: g :: fs) where
  bottom := by
    rw [List.getLast?_cons_cons, hfs.bottom]
  bodies := by
    rintro f (_ | ⟨_, hf⟩)
    · exact hh
    · exact hfs.bodies f hf
  links := List.isChain_cons_cons.2 ⟨hg, hfs.links⟩

end CallChain

namespace Machine

variable {m : Machine} {s t : State}

theorem callChain_start {r : Residue} (h : m.start? r = some s) :
    CallChain m.program s.activations := by
  obtain ⟨f, hf, rfl⟩ := Option.map_eq_some_iff.1 h
  refine ⟨rfl, fun g hg => ?_, List.isChain_singleton _⟩
  obtain rfl := List.mem_singleton.1 hg
  exact ⟨f, hf, rfl, Frame.size_locals_enter (Nat.zero_le _)⟩

theorem depth_start {r : Residue} (h : m.start? r = some s) : s.callers.depth = 0 := by
  obtain ⟨f, hf, rfl⟩ := Option.map_eq_some_iff.1 h
  rfl

/-- The function that a call enters is one of the program, and the caller waits for it. -/
theorem callChain_entered {k index : Nat} {f : Function} {args rest : List Cell}
    (hs : CallChain m.program s.activations) (hcall : AtCall m s k index f args rest)
    (hvars : f.args ≤ f.vars) :
    CallChain m.program (entered s k index f args rest).activations := by
  have hsuspended : CallChain m.program (suspended s k rest :: s.callers.frames) :=
    hs.replace_head ⟨rfl, rfl, rfl⟩
  refine hsuspended.push ⟨f, hcall.function, rfl, ?_⟩ ⟨k, rfl, hcall.code.lt, hcall.code⟩
  exact Frame.size_locals_enter (hcall.arity ▸ UInt16.le_iff_toNat_le.1 hvars)

theorem callChain_step (hs : CallChain m.program s.activations) (hstep : m.step s = .ok none t) :
    CallChain m.program t.activations := by
  generalize hr : none = r at hstep
  cases step_moved m.obeys_anyHost hstep with
  | stay hpc hstay =>
    rw [State.activations, hstay.callers]
    exact hs.replace_head hstay.body
  | enter hcall hdepth hvars => exact callChain_entered hs hcall hvars
  | back hret hcallers =>
    rw [State.activations, hcallers] at hs
    exact hs.tail.replace_head ⟨rfl, rfl, rfl⟩
  | done hret hcallers hstay => cases hr

/-- No step goes deeper than the limit, if there is one. -/
theorem depth_step (hm : 0 < m.maxCallDepth) (hs : s.callers.depth ≤ m.maxCallDepth)
    (hstep : m.step s = .ok none t) : t.callers.depth ≤ m.maxCallDepth := by
  generalize hr : none = r at hstep
  cases step_moved m.obeys_anyHost hstep with
  | stay hpc hstay => rwa [hstay.callers]
  | enter hcall hdepth hvars =>
    -- The call passed the check, so there was room for one more.
    have hroom : ¬m.maxCallDepth ≤ s.callers.depth := by
      simpa [atDepthLimit, hm] using hdepth
    rw [entered, CallStack.depth_push]
    omega
  | back hret hcallers =>
    rw [hcallers, CallStack.depth_push] at hs
    dsimp only
    omega
  | done hret hcallers hstay => cases hr

/-- The call chain is sound throughout a run. Whatever the machine has kept of earlier
    runs, a run of a program with a main function starts, and after any number of steps
    its activations are a chain of calls, no deeper than the limit. -/
theorem callChain_throughout (m : Machine) (hmain : m.program.functionPool ≠ #[]) (r : Residue) :
    ∃ s₀, m.start? r = some s₀ ∧ ∀ n s, m.after n s₀ = some s →
      CallChain m.program s.activations ∧
        (0 < m.maxCallDepth → s.callers.depth ≤ m.maxCallDepth) := by
  obtain ⟨s₀, hstart⟩ := exists_start hmain r
  refine ⟨s₀, hstart, fun n s hs => ⟨?_, fun hm => ?_⟩⟩
  · exact after_preserves (fun _ _ => callChain_step) (callChain_start hstart) hs
  · refine after_preserves (fun _ _ => depth_step hm) ?_ hs
    rw [depth_start hstart]
    exact Int.le_of_lt hm

/-- A main function that calls itself for ever, and may do so twice. -/
def recursive : Machine where
  program := { functions := some #[{ body := some #[0xB8, 0, 0] }] }
  natives := #[]
  maxCallDepth := 2

theorem callChain_throughout_recursive :
    ∃ s₀, recursive.start? (recursive.boot 0 {}) = some s₀ ∧ ∀ n s, recursive.after n s₀ = some s →
      CallChain recursive.program s.activations ∧ s.callers.depth ≤ 2 := by
  obtain ⟨s₀, hstart, hrun⟩ := callChain_throughout recursive (by decide) (recursive.boot 0 {})
  refine ⟨s₀, hstart, fun n s hs => ⟨(hrun n s hs).1, ?_⟩⟩
  exact Int.ofNat_le.1 ((hrun n s hs).2 (by decide))

end Machine

end CZero
