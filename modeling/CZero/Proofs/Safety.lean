import CZero.Proofs.Run

/-!
# Machines never crash

A machine that offers functions of the library, and none of its own, never reaches
outside an array, never divides by zero and never asks for an array that cannot be
made, whatever code it runs: each step that fails does so by a fault of the program
(`step_fault`). An execution that ends has a value, a fault, or no main function to run
(`never_crashes`).
-/

namespace CZero.Machine

variable {m : Machine} {s t : State} {e : Failure} {o : Outcome}

/-- Every native function of the machine is one of the library. -/
def UsesLibrary (m : Machine) : Prop :=
  ∀ n, some n ∈ m.natives → n ∈ Library.table

/-- The functions of the library let the heap evolve, do not crash and bring no faults of
    their own making. -/
theorem obeys_of_usesLibrary (hm : m.UsesLibrary) :
    m.Obeys (Host.HeapRel Heap.Evolves) Failure.IsFault where
  heap _ _ _ h := h
  fault _ he := he
  native n hn args := by
    have htame := Library.tame_of_mem_table Heap.allocationsWithin_evolves (hm n hn) args
    exact htame.mono (fun _ _ h => h) fun _ he hforeign => absurd hforeign he

theorem step_fault (hm : m.UsesLibrary) (h : m.step s = .error e t) : ∃ c, e = .fault c :=
  (step_error (obeys_of_usesLibrary hm) h).1.exists_eq

/-- A step that ends a run ends it with a value or a fault. -/
theorem outcome_of_ends (hm : m.UsesLibrary) (h : m.Ends s o t) :
    (∃ n, o = .value n) ∨ ∃ f, o = .fault f := by
  cases h with
  | returned hstep =>
    rename_i c
    cases c with
    | int n => exact .inl ⟨n, rfl⟩
    | ptr p => exact .inr ⟨_, rfl⟩
  | stopped hstep =>
    obtain ⟨c, rfl⟩ := step_fault hm hstep
    exact .inr ⟨_, rfl⟩

/-- No machine with functions of the library crashes. No step of it, from whatever
    state, fails but by a fault; and an execution that ends, after however many steps
    and whatever the machine has kept of earlier runs, has an integer, a fault of one of
    the six kinds, or no main function to run, which is so only if the program has no
    functions. -/
theorem never_crashes (m : Machine) (hm : m.UsesLibrary) :
    (∀ s e t, m.step s = .error e t → ∃ c, e = .fault c) ∧
    ∀ fuel r o r', m.execute fuel r = some (o, r') →
      (∃ n, o = .value n) ∨ (o = .noMain ∧ m.program.functionPool = #[]) ∨
        ∃ f, o = .fault f ∧ f.kind ∈ Fault.Kind.all := by
  refine ⟨fun s e t => step_fault hm, fun fuel r o r' h => ?_⟩
  rcases execute_eq_some h with ⟨hstart, rfl, -⟩ | ⟨s, n, u, t, -, -, hend, -⟩
  · exact .inr (.inl ⟨rfl, start?_eq_none_iff.1 hstart⟩)
  rcases outcome_of_ends hm hend with hvalue | ⟨f, rfl⟩
  · exact .inl hvalue
  · refine .inr (.inr ⟨f, rfl, ?_⟩)
    cases f.kind <;> decide

/-- A program that divides an integer by zero, on a machine with the first twelve
    native functions of the library but one. -/
def dividing : Machine where
  program := { functions := some #[{ body := some #[0x10, 1, 0x10, 0, 0x6C] }] }
  natives := (Library.table.extract 0 12).map fun n => if n.name = "flush" then none else some n

theorem never_crashes_dividing :
    ∃ o r, dividing.execute 3 (dividing.boot 0 {}) = some (o, r) ∧ ((∃ n, o = .value n) ∨
      (o = .noMain ∧ dividing.program.functionPool = #[]) ∨
        ∃ f, o = .fault f ∧ f.kind ∈ Fault.Kind.all) := by
  have hnatives : dividing.UsesLibrary := by
    intro n hn
    obtain ⟨n', hn', heq⟩ := Array.mem_map.1 hn
    split at heq <;> cases heq
    obtain ⟨k, _, rfl⟩ := Array.mem_extract_iff_getElem.1 hn'
    exact Array.getElem_mem _
  have hstops : (dividing.execute 3 (dividing.boot 0 {})).isSome := by
    decide +kernel
  obtain ⟨⟨o, r⟩, hrun⟩ := Option.isSome_iff_exists.1 hstops
  exact ⟨o, r, hrun, (never_crashes dividing hnatives).2 3 _ o r hrun⟩

end CZero.Machine
