import CZero.Proofs.Run

/-!
# Calls come back

A call is transparent to the caller. Whatever the function does, nested calls and
native ones included, the caller goes on behind its call with the returned cell in
place of the arguments, and neither its variables nor any frame below has changed.

The reason is that only the top of the call stack is ever touched. While a function
runs, its activation stands on the frames that were suspended when it was called
(`RunsOn`), and a step keeps that up unless it is the return of that very activation
(`step_runsOn`).
-/

namespace CZero

/-- `g` is the frame of a function `f`, at `index`, that was called with `args` and
    has done nothing yet. -/
structure Frame.IsFresh (g : Frame) (index : Nat) (f : Function) (args : List Cell) : Prop where
  func : g.func = index
  code : g.code = f.code
  pc : g.pc = 0
  stack : g.stack = []
  vars : g.locals.size = f.vars.toNat
  given : ∀ (i : Nat) v, args[i]? = some v → g.locals[i]? = some v
  zeros : ∀ i : Nat, args.length ≤ i → i < f.vars.toNat → g.locals[i]? = some (.int 0)

theorem Frame.isFresh_enter {index : Nat} {f : Function} {args : List Cell}
    (harity : args.length = f.args.toNat) (hvars : f.args ≤ f.vars) :
    (Frame.enter index f args).IsFresh index f args where
  func := rfl
  code := rfl
  pc := rfl
  stack := rfl
  vars := size_locals_enter (harity ▸ UInt16.le_iff_toNat_le.1 hvars)
  given i v hi := by
    obtain ⟨hlt, -⟩ := List.getElem?_eq_some_iff.1 hi
    rw [enter, Array.getElem?_append_left (by simpa using hlt), List.getElem?_toArray, hi]
  zeros i hle hlt := by
    rw [enter, Array.getElem?_append_right (by simpa using hle), List.size_toArray,
      Array.getElem?_replicate, if_pos (by omega)]
    rfl

/-- Below some frames, `fs` has an activation of the function that `g` activates, and
    `base` under it. -/
def RunsOn (g : Frame) (base fs : List Frame) : Prop :=
  ∃ inner act, fs = inner ++ act :: base ∧ g.SameBody act

namespace RunsOn

variable {g h h' : Frame} {base fs : List Frame}

theorem length_lt (hfs : RunsOn g base fs) : base.length < fs.length := by
  obtain ⟨inner, act, rfl, -⟩ := hfs
  rw [List.length_append, List.length_cons]
  omega

theorem cons (h : Frame) (hfs : RunsOn g base fs) : RunsOn g base (h :: fs) := by
  obtain ⟨inner, act, rfl, hact⟩ := hfs
  exact ⟨h :: inner, act, rfl, hact⟩

/-- The top frame is the activation itself, or one above it. -/
theorem head_or_tail (hfs : RunsOn g base (h :: fs)) :
    (fs = base ∧ g.SameBody h) ∨ RunsOn g base fs := by
  obtain ⟨inner, act, heq, hact⟩ := hfs
  cases inner with
  | nil =>
    cases heq
    exact .inl ⟨rfl, hact⟩
  | cons _ inner =>
    cases heq
    exact .inr ⟨inner, act, rfl, hact⟩

theorem replace_head (hfs : RunsOn g base (h :: fs)) (hh : h.SameBody h') :
    RunsOn g base (h' :: fs) := by
  rcases hfs.head_or_tail with ⟨rfl, hact⟩ | hfs
  · exact ⟨[], h', rfl, IsTrans.trans g h h' hact hh⟩
  · exact hfs.cons h'

end RunsOn

namespace Machine

variable {m : Machine} {s t u : State} {k index n : Nat} {f : Function} {args rest : List Cell}

/-- A step keeps an activation on its base, unless it is the return of this activation. -/
theorem step_runsOn {g caller : Frame} {callers : CallStack}
    (hu : RunsOn g (caller :: callers.frames) u.activations) (hstep : m.step u = .ok none t) :
    RunsOn g (caller :: callers.frames) t.activations ∨
      (g.SameBody u.frame ∧ u.callers = callers.push caller ∧ ∃ j v, AtReturn u j v ∧
        t = ⟨{ caller with stack := v :: caller.stack }, callers, u.host, j⟩) := by
  generalize hr : none = r at hstep
  cases step_moved m.obeys_anyHost hstep with
  | stay hpc hstay =>
    left
    rw [State.activations, hstay.callers]
    exact hu.replace_head hstay.body
  | enter hcall hdepth hvars =>
    left
    refine RunsOn.cons _ (hu.replace_head ?_)
    exact ⟨rfl, rfl, rfl⟩
  | back hret hcallers =>
    rename_i j v caller' callers'
    rw [State.activations, hcallers] at hu
    -- The frame that is left is the activation itself, or one above it.
    rcases hu.head_or_tail with ⟨hbase, hg⟩ | hu
    · right
      obtain ⟨rfl, hframes⟩ := List.cons.inj hbase
      obtain rfl := CallStack.ext_frames hframes
      exact ⟨hg, hcallers, j, v, hret, rfl⟩
    · left
      exact hu.replace_head ⟨rfl, rfl, rfl⟩
  | done hret hcallers hstay => cases hr

/-- After `n` steps the run from `s` is, for the first time, in its call depth again. -/
structure ComesBack (m : Machine) (n : Nat) (s t : State) : Prop where
  pos : 0 < n
  after : m.after n s = some t
  depth : t.callers.depth = s.callers.depth
  first : ∀ i u, 0 < i → i < n → m.after i s = some u → u.callers.depth ≠ s.callers.depth

/-- While a run has not come back, the function it called runs on the caller. -/
theorem runsOn_of_not_back (hs : AtCall m s k index f args rest)
    (hfirst : ∀ i u, 0 < i → i < n → m.after i s = some u → u.callers.depth ≠ s.callers.depth)
    {i : Nat} (hi : i + 1 < n) (hu : m.after (i + 1) s = some u) :
    RunsOn (Frame.enter index f args) (suspended s k rest :: s.callers.frames) u.activations := by
  induction i generalizing u with
  | zero =>
    obtain ⟨_, ⟨⟩, hstep⟩ := after_succ_iff.1 hu
    obtain ⟨-, -, -, rfl⟩ := (step_call hs).1 hstep
    exact ⟨[], Frame.enter index f args, rfl, refl _⟩
  | succ i ih =>
    obtain ⟨w, hw, hstep⟩ := after_succ_iff.1 hu
    rcases step_runsOn (ih (by omega) hw) hstep with hruns | ⟨-, -, j, v, -, rfl⟩
    · exact hruns
    · -- A return of the activation would have come back already.
      exact (hfirst _ _ (Nat.succ_pos _) hi hu rfl).elim

/-- The step by which a run comes back is the return of the function it called. -/
theorem return_of_comesBack (hs : AtCall m s k index f args rest) (hback : ComesBack m n s t) :
    ∃ u j v, m.after (n - 1) s = some u ∧ (Frame.enter index f args).SameBody u.frame ∧
      u.callers = s.callers.push (suspended s k rest) ∧ AtReturn u j v ∧
      t = ⟨{ s.frame with pc := k + 3, stack := v :: rest }, s.callers, u.host, j⟩ := by
  obtain ⟨i, rfl⟩ : ∃ i, n = i + 1 := ⟨n - 1, by have := hback.pos; omega⟩
  obtain ⟨u, hu, hstep⟩ := after_succ_iff.1 hback.after
  cases i with
  | zero =>
    -- The first step enters the function, so it does not come back.
    cases hu
    obtain ⟨-, -, -, rfl⟩ := (step_call hs).1 hstep
    exact absurd hback.depth (Nat.succ_ne_self _)
  | succ i =>
    have hruns := runsOn_of_not_back hs hback.first (Nat.lt_succ_self _) hu
    rcases step_runsOn hruns hstep with hruns | ⟨hbody, hcallers, j, v, hret, rfl⟩
    · -- On top of the caller, the run is deeper than the caller.
      have hlt := hruns.length_lt
      rw [State.length_activations, List.length_cons, ← s.callers.depth_eq, hback.depth] at hlt
      exact absurd hlt (Nat.lt_irrefl _)
    · exact ⟨u, j, v, hu, hbody, hcallers, hret, rfl⟩

/-- Calls are transparent. A call of `f` succeeds exactly if the depth and the number
    of its variables allow it; the function then starts in a fresh frame, and the run
    comes back, if it does, by the return of that function, with the returned cell in
    place of the arguments and everything else of the caller and of the frames below
    as it was. A native function gets its arguments in the same order, and its result
    takes their place. -/
theorem call_transparent (m : Machine) (s : State) :
    (∀ k index f args rest, AtCall m s k index f args rest →
      ((∃ t, m.step s = .ok none t) ↔
        m.atDepthLimit s.callers.depth = false ∧ f.args ≤ f.vars) ∧
      (∀ r t, m.step s = .ok r t → r = none ∧ t.frame.IsFresh index f args ∧
        t.callers = s.callers.push { s.frame with pc := k + 3, stack := rest } ∧
        t.host = s.host) ∧
      ∀ n t, ComesBack m n s t → ∃ u j v, m.after (n - 1) s = some u ∧
        u.frame.func = index ∧ u.frame.code = f.code ∧
        u.callers.depth = s.callers.depth + 1 ∧ AtReturn u j v ∧
        t.frame = { s.frame with pc := k + 3, stack := v :: rest } ∧
        t.callers = s.callers ∧ t.host = u.host) ∧
    ∀ k index ref native args rest, AtNativeCall m s k index ref native args rest →
      m.step s = match native.call args s.host with
        | .ok v host =>
          .ok none ⟨{ s.frame with pc := k + 3, stack := v :: rest }, s.callers, host, k⟩
        | .error e host =>
          .error (nativeFailure ref.slot.toNat e)
            ⟨{ s.frame with pc := k + 3, stack := rest }, s.callers, host, k⟩ := by
  refine ⟨fun k index f args rest hs => ⟨?_, ?_, ?_⟩, fun _ _ _ _ _ _ hs => step_callNative hs⟩
  · constructor
    · rintro ⟨t, ht⟩
      obtain ⟨hdepth, hvars, -⟩ := (step_call hs).1 ht
      exact ⟨hdepth, hvars⟩
    · rintro ⟨hdepth, hvars⟩
      exact ⟨_, (step_call hs).2 ⟨hdepth, hvars, rfl, rfl⟩⟩
  · intro r t ht
    obtain ⟨-, hvars, rfl, rfl⟩ := (step_call hs).1 ht
    exact ⟨rfl, Frame.isFresh_enter hs.arity hvars, rfl, rfl⟩
  · intro n t hback
    obtain ⟨u, j, v, hu, hbody, hcallers, hret, rfl⟩ := return_of_comesBack hs hback
    refine ⟨u, j, v, hu, hbody.func, hbody.code, ?_, hret, rfl, rfl, rfl⟩
    rw [hcallers, CallStack.depth_push]

/-- The main function calls a function with one argument, which calls another one;
    then it makes a native call with two arguments, of which it gets the second. -/
def nested : Machine where
  program :=
    { functions := some #[
        { body := some #[0x10, 7, 0x10, 5, 0xB8, 0, 1, 0xB7, 0, 0, 0xB0] },
        { args := 1, vars := 2, body := some #[0x15, 0, 0xB8, 0, 2, 0xB0] },
        { args := 1, vars := 1, body := some #[0x15, 0, 0x15, 0, 0x60, 0xB0] }]
      natives := some #[{ args := 2, slot := 0 }] }
  natives := #[some ⟨"second", fun args => Action.ofResult (argument args 1)⟩]

/-- The main function of `nested` at the address `pc`. -/
def nestedAt (pc : Nat) (stack : List Cell) (last : Nat) : State where
  frame := ⟨0, #[0x10, 7, 0x10, 5, 0xB8, 0, 1, 0xB7, 0, 0, 0xB0], pc, stack, #[]⟩
  callers := .empty
  host := ⟨Heap.empty, {}⟩
  last := last

theorem call_transparent_nested :
    (∃ u j v, nested.after 7 (nestedAt 4 [.int 5, .int 7] 2) = some u ∧ AtReturn u j v ∧
      (nestedAt 7 [.int 10, .int 7] 5).frame.stack = v :: [.int 7]) ∧
    nested.step (nestedAt 7 [.int 10, .int 7] 5) = .ok none (nestedAt 10 [.int 10] 7) := by
  have hcall : AtCall nested (nestedAt 4 [.int 5, .int 7] 2) 4 1
      { args := 1, vars := 2, body := some #[0x15, 0, 0xB8, 0, 2, 0xB0] } [.int 5] [.int 7] :=
    ⟨rfl, ⟨0, 1, rfl, rfl, rfl, rfl⟩, rfl, rfl, rfl⟩
  have hfirst : ∀ i < 8, 0 < i → ∀ u ∈ nested.after i (nestedAt 4 [.int 5, .int 7] 2),
      u.callers.depth ≠ 0 := by
    decide +kernel
  have hback : ComesBack nested 8 (nestedAt 4 [.int 5, .int 7] 2)
      (nestedAt 7 [.int 10, .int 7] 5) :=
    ⟨by decide, by decide +kernel, rfl, fun i u h0 hi hu => hfirst i hi h0 u hu⟩
  have hnative : AtNativeCall nested (nestedAt 7 [.int 10, .int 7] 5) 7 0 ⟨2, 0⟩
      ⟨"second", fun args => Action.ofResult (argument args 1)⟩ [.int 7, .int 10] [] :=
    ⟨rfl, ⟨0, 0, rfl, rfl, rfl, rfl⟩, rfl, rfl, rfl, rfl⟩
  obtain ⟨-, -, hreturn⟩ := (call_transparent nested _).1 _ _ _ _ _ hcall
  obtain ⟨u, j, v, hu, -, -, -, hret, hframe, -, -⟩ := hreturn 8 _ hback
  exact ⟨⟨u, j, v, hu, hret, congrArg Frame.stack hframe⟩,
    (call_transparent nested _).2 _ _ _ _ _ _ hnative⟩

end Machine

end CZero
