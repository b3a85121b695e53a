import Mathlib.Order.Defs.Unbundled
import CZero.Failure

/-!
# What an action may do

An action is taken apart at its binds: it ends with a value exactly when its first
part does and the rest ends from there (`bind_eq_ok`), and it fails where its first
part fails or its rest does (`bind_eq_error`).

`Within G E x` bounds an action from outside, whatever state it starts in: the state
it ends in is one that `G` allows, and it fails only for reasons in `E`. For a
preorder `G` the bound is checked part by part, so that a long action is within its
bound because its primitive ones are. What an action does to a component of a larger
state, and that it never crashes, are both such bounds.
-/

namespace CZero

namespace Failure

/-- The faults that the machine finds in a program. Native functions may bring others. -/
def IsFault : Failure → Prop
  | .fault (.brought _) => False
  | .fault _ => True
  | .refused _ | .crash => False

/-- The failures that can only come from a native function which is not of the library. -/
def IsForeign : Failure → Prop
  | .fault (.brought _) | .crash => True
  | .fault _ | .refused _ => False

theorem IsFault.not_isForeign : {e : Failure} → e.IsFault → ¬e.IsForeign
  | .fault c, h => by cases c <;> first | exact not_false | exact h.elim

theorem isForeign_of_not_isFault {c : Fault.Cause} (h : ¬IsFault (.fault c)) :
    IsForeign (.fault c) := by
  cases c <;> first | exact trivial | exact absurd trivial h

theorem IsFault.exists_eq : {e : Failure} → e.IsFault → ∃ c, e = .fault c
  | .fault c, _ => ⟨c, rfl⟩

/-- A fault names no instruction before it is located. -/
theorem IsFault.not_isLocated {c : Fault.Cause} (h : IsFault (.fault c)) : ¬c.report.isLocated := by
  cases c <;> first | exact h.elim | exact nofun

/-- A fault of the kind that bad accesses to memory are. -/
def IsMemoryFault (e : Failure) : Prop :=
  e.IsFault ∧ ∃ c : Fault.Cause, e = .fault c ∧ c.kind = .memory

theorem IsMemoryFault.isFault {e : Failure} (h : e.IsMemoryFault) : e.IsFault :=
  h.1

end Failure

/-! ## Results -/

section Results

variable {α β : Type} {E F : Failure → Prop}

/-- The result `x` is a failure only for a reason in `E`. -/
def ErrsWithin (E : Failure → Prop) (x : Except Failure α) : Prop :=
  ∀ e, x = .error e → E e

theorem ErrsWithin.ok (a : α) : ErrsWithin E (.ok a) :=
  fun _ h => nomatch h

theorem ErrsWithin.error {e : Failure} (he : E e) : ErrsWithin E (.error e : Except Failure α) := by
  rintro _ ⟨⟩
  exact he

theorem ErrsWithin.mono {x : Except Failure α} (h : ErrsWithin E x) (hEF : ∀ e, E e → F e) :
    ErrsWithin F x :=
  fun e he => hEF e (h e he)

theorem ErrsWithin.isFault {x : Except Failure α} (h : ErrsWithin Failure.IsMemoryFault x) :
    ErrsWithin Failure.IsFault x :=
  h.mono fun _ => Failure.IsMemoryFault.isFault

theorem ErrsWithin.bind {x : Except Failure α} {f : α → Except Failure β} (hx : ErrsWithin E x)
    (hf : ∀ a, x = .ok a → ErrsWithin E (f a)) : ErrsWithin E (x >>= f) := by
  cases x with
  | ok a => exact hf a rfl
  | error e => exact ErrsWithin.error (hx e rfl)

theorem ErrsWithin.ite {p : Prop} [Decidable p] {x y : Except Failure α} (hx : p → ErrsWithin E x)
    (hy : ¬p → ErrsWithin E y) : ErrsWithin E (if p then x else y) := by
  split
  · exact hx ‹_›
  · exact hy ‹_›

theorem Cell.asInt_errs (c : Cell) : ErrsWithin Failure.IsFault c.asInt := by
  cases c with
  | int n => exact ErrsWithin.ok n
  | ptr p => exact ErrsWithin.error trivial

theorem Cell.asPtr_errs (c : Cell) : ErrsWithin Failure.IsFault c.asPtr := by
  cases c with
  | int n => exact ErrsWithin.error trivial
  | ptr p => exact ErrsWithin.ok p

/-- An access in bounds does not fail. -/
theorem fetch_of_lt {xs : Array α} {i : Nat} (h : i < xs.size) : fetch xs i = .ok xs[i] := by
  simp [fetch, h]

theorem argument_of_lt {args : List Cell} {i : Nat} (h : i < args.length) :
    argument args i = .ok args[i] := by
  simp [argument, h]

end Results

namespace Action

variable {σ τ α β : Type}

/-! ## Binds -/

theorem bind_eq_ok {x : Action σ α} {f : α → Action σ β} {s u : σ} {b : β} :
    (x >>= f) s = .ok b u ↔ ∃ a t, x s = .ok a t ∧ f a t = .ok b u := by
  change EStateM.bind x f s = _ ↔ _
  cases hx : x s with
  | ok a t => simp [EStateM.bind, hx, and_assoc]
  | error e t => simp [EStateM.bind, hx]

theorem bind_eq_error {x : Action σ α} {f : α → Action σ β} {s u : σ} {e : Failure} :
    (x >>= f) s = .error e u ↔
      x s = .error e u ∨ ∃ a t, x s = .ok a t ∧ f a t = .error e u := by
  change EStateM.bind x f s = _ ↔ _
  cases hx : x s with
  | ok a t => simp [EStateM.bind, hx, and_assoc]
  | error e t => simp [EStateM.bind, hx]

theorem map_eq_ok {x : Action σ α} {f : α → β} {s u : σ} {b : β} :
    (f <$> x) s = .ok b u ↔ ∃ a, x s = .ok a u ∧ f a = b := by
  rw [map_eq_pure_bind, bind_eq_ok]
  constructor
  · rintro ⟨a, t, ha, ⟨⟩⟩
    exact ⟨a, ha, rfl⟩
  · rintro ⟨a, ha, rfl⟩
    exact ⟨a, u, ha, rfl⟩

/-- The rest of an action after a part that ended. -/
theorem bind_of_ok {x : Action σ α} {f : α → Action σ β} {s t : σ} {a : α} (h : x s = .ok a t) :
    (x >>= f) s = f a t := by
  change EStateM.bind x f s = _
  rw [EStateM.bind, h]

/-- An action whose first part failed. -/
theorem bind_of_error {x : Action σ α} {f : α → Action σ β} {s t : σ} {e : Failure}
    (h : x s = .error e t) : (x >>= f) s = .error e t := by
  change EStateM.bind x f s = _
  rw [EStateM.bind, h]

theorem bind_congr_at {x y : Action σ α} {f : α → Action σ β} {s : σ} (h : x s = y s) :
    (x >>= f) s = (y >>= f) s := by
  change EStateM.bind x f s = EStateM.bind y f s
  rw [EStateM.bind, EStateM.bind, h]

@[simp] theorem pure_apply (a : α) (s : σ) : (pure a : Action σ α) s = .ok a s := rfl

@[simp] theorem get_apply (s : σ) : (get : Action σ σ) s = .ok s s := rfl

@[simp] theorem fault_apply (c : Fault.Cause) (s : σ) :
    (fault c : Action σ α) s = .error (.fault c) s := rfl

/-- Nothing follows a fault. -/
@[simp] theorem fault_bind (c : Fault.Cause) (f : α → Action σ β) : (fault c >>= f) = fault c := rfl

@[simp] theorem ofResult_ok (a : α) (s : σ) : ofResult (.ok a) s = .ok a s := rfl

@[simp] theorem ofResult_error (e : Failure) (s : σ) :
    (ofResult (.error e) : Action σ α) s = .error e s := rfl

/-- The state that an action leaves, whether it succeeded or not. -/
def final (x : Action σ α) (s : σ) : σ :=
  match x s with
  | .ok _ t => t
  | .error _ t => t

/-! ## Endings -/

/-- How an action ended: with a value and a state of which `Q` holds, or by a failure in a
    state of which `R` holds. -/
def EndsIn (Q : α → σ → Prop) (R : Failure → σ → Prop) : EStateM.Result Failure σ α → Prop
  | .ok a t => Q a t
  | .error e t => R e t

instance {Q : α → σ → Prop} {R : Failure → σ → Prop} [∀ a t, Decidable (Q a t)]
    [∀ e t, Decidable (R e t)] (r : EStateM.Result Failure σ α) : Decidable (EndsIn Q R r) :=
  match r with
  | .ok a t => inferInstanceAs (Decidable (Q a t))
  | .error e t => inferInstanceAs (Decidable (R e t))

theorem EndsIn.exists_eq_ok {r : EStateM.Result Failure σ α} {Q : α → σ → Prop}
    (h : EndsIn Q (fun _ _ => False) r) : ∃ a t, Q a t ∧ r = .ok a t := by
  cases r with
  | ok a t => exact ⟨a, t, h, rfl⟩
  | error e t => exact h.elim

theorem EndsIn.bind {x : Action σ α} {f : α → Action σ β} {s : σ} {Q : α → σ → Prop}
    {Q' : β → σ → Prop} {R : Failure → σ → Prop} (hx : EndsIn Q R (x s))
    (hf : ∀ a t, Q a t → EndsIn Q' R (f a t)) : EndsIn Q' R ((x >>= f) s) := by
  cases hs : x s with
  | ok a t =>
    rw [hs] at hx
    rw [bind_of_ok hs]
    exact hf a t hx
  | error e t =>
    rw [hs] at hx
    rw [bind_of_error hs]
    exact hx

theorem EndsIn.mono {r : EStateM.Result Failure σ α} {Q Q' : α → σ → Prop}
    {R R' : Failure → σ → Prop} (h : EndsIn Q R r) (hQ : ∀ a t, Q a t → Q' a t)
    (hR : ∀ e t, R e t → R' e t) : EndsIn Q' R' r := by
  cases r with
  | ok a t => exact hQ a t h
  | error e t => exact hR e t h

/-! ## Bounds -/

/-- Whatever state `x` starts in, it ends in one that `G` allows, and if it fails,
    then for a reason in `E`. -/
structure Within (G : σ → σ → Prop) (E : Failure → Prop) (x : Action σ α) : Prop where
  ok : ∀ {s a t}, x s = .ok a t → G s t
  error : ∀ {s e t}, x s = .error e t → G s t ∧ E e

variable {G G' : σ → σ → Prop} {E F : Failure → Prop} {x : Action σ α} {f : α → Action σ β}

theorem Within.mono (h : Within G E x) (hG : ∀ s t, G s t → G' s t) (hE : ∀ e, E e → F e) :
    Within G' F x where
  ok hs := hG _ _ (h.ok hs)
  error hs := ⟨hG _ _ (h.error hs).1, hE _ (h.error hs).2⟩

/-- An action that always ends where `G` allows and fails only for reasons in `E`. -/
theorem within_of_final (hG : ∀ s, G s (final x s)) (hE : ∀ s e t, x s = .error e t → E e) :
    Within G E x where
  ok := by
    intro s a t h
    have := hG s
    rwa [final, h] at this
  error := by
    intro s e t h
    have := hG s
    rw [final, h] at this
    exact ⟨this, hE s e t h⟩

theorem Within.rel_final (h : Within G E x) (s : σ) : G s (final x s) := by
  rw [final]
  cases hs : x s with
  | ok a t => exact h.ok hs
  | error e t => exact (h.error hs).1

variable [IsPreorder σ G]

theorem within_pure (a : α) : Within G E (pure a : Action σ α) where
  ok := by
    rintro s _ _ ⟨⟩
    exact refl s
  error := by
    rintro _ _ _ ⟨⟩

theorem within_get : Within G E (get : Action σ σ) where
  ok := by
    rintro s _ _ ⟨⟩
    exact refl s
  error := by
    rintro _ _ _ ⟨⟩

theorem within_fault (c : Fault.Cause) (hc : E (.fault c)) : Within G E (fault c : Action σ α) where
  ok := by
    rintro _ _ _ ⟨⟩
  error := by
    rintro s _ _ ⟨⟩
    exact ⟨refl s, hc⟩

theorem within_ofResult {r : Except Failure α} (hr : ErrsWithin E r) :
    Within G E (ofResult r : Action σ α) where
  ok := by
    intro s a t h
    cases r <;> cases h
    exact refl s
  error := by
    intro s e t h
    cases r <;> cases h
    exact ⟨refl s, hr e rfl⟩

/-- The rest of an action has to be bounded for the values that the first part gives. -/
theorem Within.bind_of (hx : Within G E x)
    (hf : ∀ a, (∃ s t, x s = .ok a t) → Within G E (f a)) : Within G E (x >>= f) where
  ok := by
    intro s b u h
    obtain ⟨a, t, ht, hu⟩ := bind_eq_ok.1 h
    exact IsTrans.trans _ _ _ (hx.ok ht) ((hf a ⟨s, t, ht⟩).ok hu)
  error := by
    intro s e u h
    rcases bind_eq_error.1 h with h | ⟨a, t, ht, hu⟩
    · exact hx.error h
    · obtain ⟨htu, he⟩ := (hf a ⟨s, t, ht⟩).error hu
      exact ⟨IsTrans.trans _ _ _ (hx.ok ht) htu, he⟩

theorem Within.bind (hx : Within G E x) (hf : ∀ a, Within G E (f a)) : Within G E (x >>= f) :=
  hx.bind_of fun a _ => hf a

omit [IsPreorder σ G] in
theorem Within.ite {p : Prop} [Decidable p] {x y : Action σ α} (hx : p → Within G E x)
    (hy : ¬p → Within G E y) : Within G E (if p then x else y) := by
  split
  · exact hx ‹_›
  · exact hy ‹_›

end Action

end CZero
