import CZero.Machine.Run
import CZero.Proofs.Step

/-!
# What whole runs do

A run is a number of steps that give nothing back (`after`) and one last step that
ends it, with a cell or a failure (`runWith_eq_some`). What every step preserves, all
states of a run have (`after_preserves`).

To compare runs that end at different times, an ended run is looked at as one that
stays where it is (`stage`). A run that is given `n` steps ends exactly if its stage
after `n` steps is an end (`run_eq_some_iff`).
-/

namespace CZero.Machine

variable {m : Machine} {H : Host → Host → Prop} {E : Failure → Prop} {s t : State}

/-- A run starts unless the program has no functions. -/
theorem start?_eq_none_iff {r : Residue} :
    m.start? r = none ↔ m.program.functionPool = #[] := by
  rw [start?, Option.map_eq_none_iff, Program.main?, Array.getElem?_eq_none_iff, Nat.le_zero,
    Array.size_eq_zero_iff]

theorem exists_start (h : m.program.functionPool ≠ #[]) (r : Residue) : ∃ s, m.start? r = some s :=
  Option.ne_none_iff_exists'.1 fun hnone => h (start?_eq_none_iff.1 hnone)

theorem host_start {r : Residue} (h : m.start? r = some s) : s.host = r.host := by
  obtain ⟨f, -, rfl⟩ := Option.map_eq_some_iff.1 h
  rfl

/-- The state after `n` steps, if the run did not end before. -/
def after (m : Machine) : Nat → State → Option State
  | 0, s => some s
  | n + 1, s =>
    match m.step s with
    | .ok none t => m.after n t
    | _ => none

theorem after_step (h : m.step s = .ok none t) (n : Nat) : m.after (n + 1) s = m.after n t := by
  rw [after, h]

/-- The last of `n + 1` steps. -/
theorem after_succ_iff {n : Nat} :
    m.after (n + 1) s = some t ↔ ∃ u, m.after n s = some u ∧ m.step u = .ok none t := by
  -- The steps are taken from the front, so the last one shows after all others.
  induction n generalizing s with
  | zero =>
    rw [after]
    rcases hstep : m.step s with ⟨_ | c, u⟩ | ⟨e, u⟩ <;> simp [after, hstep]
  | succ n ih =>
    rw [after, after]
    rcases hstep : m.step s with ⟨_ | c, u⟩ | ⟨e, u⟩
    · exact ih
    · simp
    · simp

/-- What every step preserves holds after any number of them. -/
theorem after_preserves {P : State → Prop} (hP : ∀ s t, P s → m.step s = .ok none t → P t)
    (hs : P s) {n : Nat} (h : m.after n s = some t) : P t := by
  induction n generalizing t with
  | zero =>
    cases h
    exact hs
  | succ n ih =>
    obtain ⟨u, hu, hstep⟩ := after_succ_iff.1 h
    exact hP u t (ih hu) hstep

/-- The step of `s` ends the run, in `t` and with the outcome `o`. -/
inductive Ends (m : Machine) (s : State) : Outcome → State → Prop
  | returned {c : Cell} {t : State} : m.step s = .ok (some c) t → Ends m s (returned c) t
  | stopped {e : Failure} {t : State} : m.step s = .error e t → Ends m s (stopped t e) t

/-- A run that ended has taken steps to a state whose step ended it. -/
theorem runWith_eq_some {α : Type} {observe : State → α → α} {fuel : Nat} {a b : α} {o : Outcome}
    (h : m.runWith observe fuel a s = some (o, t, b)) :
    ∃ n u, m.after n s = some u ∧ m.Ends u o t := by
  induction fuel generalizing a s with
  | zero => cases h
  | succ fuel ih =>
    rw [runWith] at h
    rcases hstep : m.step s with ⟨_ | c, u⟩ | ⟨e, u⟩ <;> simp only [hstep] at h
    · obtain ⟨n, w, hw, hend⟩ := ih h
      exact ⟨n + 1, w, (after_step hstep n).trans hw, hend⟩
    · cases h
      exact ⟨0, s, rfl, .returned hstep⟩
    · cases h
      exact ⟨0, s, rfl, .stopped hstep⟩

theorem run_eq_some {fuel : Nat} {o : Outcome} (h : m.run fuel s = some (o, t)) :
    ∃ n u, m.after n s = some u ∧ m.Ends u o t := by
  obtain ⟨⟨o', t', _⟩, hrun, ⟨⟩⟩ := Option.map_eq_some_iff.1 h
  exact runWith_eq_some hrun

/-- An execution that ended found no main function, or is such a run from its start. -/
theorem execute_eq_some {fuel : Nat} {r r' : Residue} {o : Outcome}
    (h : m.execute fuel r = some (o, r')) :
    (m.start? r = none ∧ o = .noMain ∧ r' = r) ∨
      ∃ s n u t, m.start? r = some s ∧ m.after n s = some u ∧ m.Ends u o t ∧ r' = t.residue := by
  unfold execute at h
  cases hs : m.start? r with
  | none =>
    rw [hs] at h
    cases h
    exact .inl ⟨rfl, rfl, rfl⟩
  | some s =>
    rw [hs] at h
    obtain ⟨⟨o', t⟩, hrun, ⟨⟩⟩ := Option.map_eq_some_iff.1 h
    obtain ⟨n, u, hu, hend⟩ := run_eq_some hrun
    exact .inr ⟨s, n, u, t, rfl, hu, hend, rfl⟩

/-! ## Stages -/

/-- How far a run has come: it goes on from a state, or it has ended in one. -/
inductive Stage where
  | running (s : State)
  | ended (o : Outcome) (s : State)

/-- The state that a run has come to. -/
def Stage.state : Stage → State
  | .running s => s
  | .ended _ s => s

/-- The result of a run, if it has ended. -/
def Stage.result? : Stage → Option (Outcome × State)
  | .running _ => none
  | .ended o s => some (o, s)

/-- Where a step leads. -/
def Stage.ofStep : EStateM.Result Failure State (Option Cell) → Stage
  | .ok none t => .running t
  | .ok (some c) t => .ended (returned c) t
  | .error e t => .ended (stopped t e) t

/-- One more step, unless the run has ended. -/
def advance (m : Machine) : Stage → Stage
  | .running s => .ofStep (m.step s)
  | .ended o s => .ended o s

/-- How far the run from `s` has come after so many steps. -/
def stage (m : Machine) (s : State) : Nat → Stage
  | 0 => .running s
  | n + 1 => m.advance (m.stage s n)

/-- The first of `n + 1` steps. -/
theorem stage_step (h : m.step s = .ok none t) (n : Nat) : m.stage s (n + 1) = m.stage t n := by
  induction n with
  | zero => rw [stage, stage, stage, advance, h, Stage.ofStep]
  | succ n ih => rw [stage, ih, stage]

/-- An ended run stays as it is. -/
theorem stage_of_ended {o : Outcome} {n k : Nat} (h : m.stage s n = .ended o t) (hk : n ≤ k) :
    m.stage s k = .ended o t := by
  induction hk with
  | refl => exact h
  | step _ ih => rw [stage, ih, advance]

/-- A run gives what its last stage shows. -/
theorem run_eq_result? {fuel : Nat} : m.run fuel s = (m.stage s fuel).result? := by
  induction fuel generalizing s with
  | zero => rfl
  | succ fuel ih =>
    rcases hstep : m.step s with ⟨_ | c, u⟩ | ⟨e, u⟩
    · rw [stage_step hstep, ← ih]
      simp only [run, runWith, hstep]
    · have hend : m.stage s 1 = .ended (returned c) u := by
        rw [stage, stage, advance, hstep, Stage.ofStep]
      rw [stage_of_ended hend (Nat.le_add_left 1 fuel)]
      simp only [run, runWith, hstep, Option.map_some, Stage.result?]
    · have hend : m.stage s 1 = .ended (stopped u e) u := by
        rw [stage, stage, advance, hstep, Stage.ofStep]
      rw [stage_of_ended hend (Nat.le_add_left 1 fuel)]
      simp only [run, runWith, hstep, Option.map_some, Stage.result?]

/-! ## What becomes of the host -/

section

variable [IsPreorder Host H] (ho : m.Obeys H E)
include ho

theorem step_host {r : Option Cell} (h : m.step s = .ok r t) : H s.host t.host := by
  cases step_moved ho h with
  | stay hpc hstay => exact hstay.host
  | enter hcall hdepth hvars => exact refl s.host
  | back hret hcallers => exact refl s.host
  | done hret hcallers hstay => exact hstay.host

theorem after_host {n : Nat} (h : m.after n s = some t) : H s.host t.host := by
  refine after_preserves (P := fun u => H s.host u.host) (fun u w hu hstep => ?_) (refl s.host) h
  exact IsTrans.trans _ _ _ hu (step_host ho hstep)

theorem Ends.host {o : Outcome} (h : m.Ends s o t) : H s.host t.host := by
  cases h with
  | returned hstep => exact step_host ho hstep
  | stopped hstep =>
    obtain ⟨-, k, hstay⟩ := step_error ho hstep
    exact hstay.host

/-- An execution leaves the host as its steps do. -/
theorem execute_host {fuel : Nat} {r r' : Residue} {o : Outcome}
    (h : m.execute fuel r = some (o, r')) : H r.host r'.host := by
  rcases execute_eq_some h with ⟨-, -, rfl⟩ | ⟨s, n, u, t, hstart, hu, hend, rfl⟩
  · exact refl _
  · rw [← host_start hstart]
    exact IsTrans.trans _ _ _ (after_host ho hu) (hend.host ho)

end

end CZero.Machine
