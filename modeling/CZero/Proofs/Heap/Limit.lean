import CZero.Proofs.Natives

/-!
# What a limit on the heap changes

An action is run twice: on a state whose heap has no limit, and on the same state with
the limit `L`. As long as the first run asks for no more than `L` bytes, the second does
the same. When it asks for more, the second run fails there, by the fault of the limit,
and has used no more than `L` bytes; what the first run does afterwards makes no
difference, since memory is never given back. An action for which this holds is
*cut short* by a limit (`CutShort`), and so are actions made of such actions.

All allocations of the heap are cut short, and so are the native functions of the
library (`Native.Builds.cutShort`).
-/

namespace CZero

open CZero.Action

/-- States with a heap in them, on which a limit can be set. -/
class HeapState (σ : Type) where
  /-- The heap of a state. -/
  heap : σ → Heap
  /-- The state with a limit on its heap. -/
  limited : Int → σ → σ

instance : HeapState Heap where
  heap h := h
  limited L h := h.setLimit L

instance : HeapState Host where
  heap s := s.heap
  limited L s := { s with heap := s.heap.setLimit L }

open HeapState

section

variable {σ α β : Type} [HeapState σ] {L : Int}

/-- How many bytes have been asked for in a state. -/
def HeapState.used (s : σ) : Nat :=
  (heap s).used

/-- `t` has asked for at least as many bytes as `s`. -/
def Uses (s t : σ) : Prop :=
  used s ≤ used t

instance : IsPreorder σ Uses where
  refl _ := Nat.le_refl _
  trans _ _ _ := Nat.le_trans

/-- `s` has no limit, and would pass the limit `L` as it is. -/
structure Fits (L : Int) (s : σ) : Prop where
  unlimited : (heap s).limit = 0
  used : used s ≤ L

/-- The state in which an action ended. -/
def Action.endState : EStateM.Result Failure σ α → σ
  | .ok _ t => t
  | .error _ t => t

/-- The endings of an action without a limit and with the limit `L`: they are the same,
    or the first asked for too much and the second is the fault of the limit. -/
inductive Cut (L : Int) : EStateM.Result Failure σ α → EStateM.Result Failure σ α → Prop
  | ok {a : α} {t : σ} : Fits L t → Cut L (.ok a t) (.ok a (limited L t))
  | error {e : Failure} {t : σ} : Fits L t → Cut L (.error e t) (.error e (limited L t))
  | exceeded {r : EStateM.Result Failure σ α} {t : σ} : L < used (endState r) → used t ≤ L →
    Cut L r (.error (.fault (.heapLimit L)) t)

/-- The limit `L` cuts an action short, and changes nothing else. -/
structure CutShort (L : Int) (x : Action σ α) : Prop where
  grows : Within Uses (fun _ => True) x
  cut : ∀ s, Fits L s → Cut L (x s) (x (limited L s))

theorem Action.Within.uses_endState {x : Action σ α} (hx : Within Uses (fun _ => True) x) (s : σ) :
    Uses s (endState (x s)) := by
  cases hs : x s with
  | ok a t => exact hx.ok hs
  | error e t => exact (hx.error hs).1

/-! ## Actions made of others -/

theorem cutShort_pure (a : α) : CutShort L (pure a : Action σ α) where
  grows := within_pure a
  cut _ hs := .ok hs

theorem cutShort_fault (c : Fault.Cause) : CutShort L (fault c : Action σ α) where
  grows := within_fault c trivial
  cut _ hs := .error hs

theorem cutShort_ofResult (r : Except Failure α) : CutShort L (ofResult r : Action σ α) where
  grows := within_ofResult fun _ _ => trivial
  cut s hs := by
    cases r with
    | ok a => exact .ok hs
    | error e => exact .error hs

/-- The rest of an action has to be cut short for the values that the first part gives. -/
theorem CutShort.bind_of {x : Action σ α} {f : α → Action σ β} (hx : CutShort L x)
    (hf : ∀ a, (∃ s t, x s = .ok a t) → CutShort L (f a)) : CutShort L (x >>= f) where
  grows := hx.grows.bind_of fun a ha => (hf a ha).grows
  cut s hs := by
    generalize hr : x s = r
    generalize hr' : x (limited L s) = r'
    have hcut : Cut L r r' := hr ▸ hr' ▸ hx.cut s hs
    cases hcut with
    | ok ht =>
      rw [bind_of_ok hr, bind_of_ok hr']
      exact (hf _ ⟨s, _, hr⟩).cut _ ht
    | error ht =>
      rw [bind_of_error hr, bind_of_error hr']
      exact .error ht
    | exceeded hover ht =>
      -- Whatever follows without the limit, too much has been asked for.
      rw [bind_of_error hr']
      refine .exceeded (Int.lt_of_lt_of_le hover (Int.ofNat_le.2 ?_)) ht
      cases r with
      | ok a t =>
        rw [bind_of_ok hr]
        exact (hf a ⟨s, t, hr⟩).grows.uses_endState t
      | error e t =>
        rw [bind_of_error hr]
        exact Nat.le_refl _

theorem CutShort.bind {x : Action σ α} {f : α → Action σ β} (hx : CutShort L x)
    (hf : ∀ a, CutShort L (f a)) : CutShort L (x >>= f) :=
  hx.bind_of fun a _ => hf a

theorem CutShort.ite {p : Prop} [Decidable p] {x y : Action σ α} (hx : CutShort L x)
    (hy : CutShort L y) : CutShort L (if p then x else y) := by
  split
  · exact hx
  · exact hy

/-- What is looked up in the state must not be the limit. -/
theorem CutShort.get_bind {f : σ → Action σ β} (hf : ∀ s, CutShort L (f s))
    (hsame : ∀ s, f (limited L s) = f s) : CutShort L (get >>= f) where
  grows := within_get.bind fun s => (hf s).grows
  cut s hs := by
    rw [bind_of_ok (get_apply s), bind_of_ok (get_apply (limited L s)), hsame]
    exact (hf s).cut s hs

/-- An action that asks for nothing and does not see the limit. -/
theorem cutShort_of_same {x : Action σ α} (hx : ∀ s, ∃ t, used t = used s ∧
    (heap t).limit = (heap s).limit ∧
    ((∃ a, x s = .ok a t ∧ x (limited L s) = .ok a (limited L t)) ∨
      ∃ e, x s = .error e t ∧ x (limited L s) = .error e (limited L t))) : CutShort L x where
  grows := by
    refine within_of_final (fun s => ?_) fun _ _ _ _ => trivial
    obtain ⟨t, hused, -, ⟨a, hs, -⟩ | ⟨e, hs, -⟩⟩ := hx s <;> rw [final, hs]
    · exact Nat.le_of_eq hused.symm
    · exact Nat.le_of_eq hused.symm
  cut s hs := by
    obtain ⟨t, hused, hlimit, hend⟩ := hx s
    have ht : Fits L t := ⟨hlimit.trans hs.unlimited, hused ▸ hs.used⟩
    obtain ⟨a, hs, hs'⟩ | ⟨e, hs, hs'⟩ := hend <;> rw [hs, hs']
    · exact .ok ht
    · exact .error ht

/-! ## Actions on a part of a state -/

variable {τ : Type} [HeapState τ]

/-- An ending in a part of a state, as one in the whole. -/
def Action.inside (put : τ → σ) : EStateM.Result Failure τ α → EStateM.Result Failure σ α
  | .ok a t => .ok a (put t)
  | .error e t => .error e (put t)

omit [HeapState σ] [HeapState τ] in
theorem Action.endState_inside (put : τ → σ) (r : EStateM.Result Failure τ α) :
    endState (inside put r) = put (endState r) := by
  cases r <;> rfl

theorem Fits.of_heap_eq {s : σ} {t : τ} (ht : Fits L t) (h : heap s = heap t) : Fits L s where
  unlimited := h ▸ ht.unlimited
  used := by
    rw [HeapState.used, h]
    exact ht.used

/-- An action on the part of a state that holds the heap. -/
theorem CutShort.lift {x : Action τ α} {y : Action σ α} (hx : CutShort L x) (part : σ → τ)
    (put : σ → τ → σ) (hpart : ∀ s, heap (part s) = heap s) (hput : ∀ s t, heap (put s t) = heap t)
    (hpart' : ∀ s, part (limited L s) = limited L (part s))
    (hput' : ∀ s t, put (limited L s) (limited L t) = limited L (put s t))
    (hy : ∀ s, y s = inside (put s) (x (part s))) : CutShort L y where
  grows := by
    refine within_of_final (fun s => ?_) fun _ _ _ _ => trivial
    -- What has been asked for in a state has been asked for in its part.
    change used s ≤ used (endState (y s))
    rw [hy, endState_inside, used, used, hput, ← hpart]
    exact hx.grows.uses_endState (part s)
  cut s hs := by
    have hcut := hx.cut (part s) (hs.of_heap_eq (hpart s))
    rw [hy, hy, hpart']
    generalize x (part s) = r at hcut
    generalize x (limited L (part s)) = r' at hcut
    cases hcut with
    | ok ht =>
      rw [inside, inside, hput']
      exact .ok (ht.of_heap_eq (hput s _))
    | error ht =>
      rw [inside, inside, hput']
      exact .error (ht.of_heap_eq (hput s _))
    | exceeded hover ht =>
      refine .exceeded ?_ ?_
      · rwa [endState_inside, used, hput]
      · rwa [used, hput]

end

namespace Heap

variable {L : Int}

/-! ## Allocations and stores -/

theorem reserve_uses (n : Nat) : Within Uses (fun _ => True) (reserve n) := by
  refine within_of_final (fun h => ?_) fun _ _ _ _ => trivial
  rw [final, reserve_eq]
  by_cases hover : h.overLimit n
  · rw [if_pos hover]
    exact Nat.le_refl _
  · rw [if_neg hover]
    exact Nat.le_add_right _ _

/-- A block is refused exactly when the bytes asked for would pass the limit. -/
theorem reserve_cutShort (hL : 0 < L) (n : Nat) : CutShort L (reserve n) where
  grows := reserve_uses n
  cut h hh := by
    -- The first heap refuses nothing, the second what passes `L`.
    have hfree : ¬h.overLimit n := not_overLimit (Int.le_of_eq hh.unlimited) n
    have hcut : (limited L h).overLimit n = true ↔ L < (h.used + n : Nat) := by
      simp [overLimit, passesLimit, limited, setLimit, hL]
    rw [reserve_eq, reserve_eq, if_neg hfree]
    by_cases hover : L < (h.used + n : Nat)
    · rw [if_pos (hcut.2 hover)]
      exact .exceeded hover hh.used
    · rw [if_neg fun h => hover (hcut.1 h)]
      exact .ok ⟨hh.unlimited, Int.not_lt.1 hover⟩

theorem write_cutShort (i : Nat) (bs : Bytes) : CutShort L (write i bs) := by
  refine cutShort_of_same fun h => ?_
  by_cases hfit : i + bs.length ≤ h.mem.size
  · exact ⟨{ h with mem := overwrite h.mem i bs }, rfl, rfl,
      .inl ⟨(), if_pos hfit, if_pos (show i + bs.length ≤ (limited L h).mem.size from hfit)⟩⟩
  · exact ⟨h, rfl, rfl, .inr ⟨.crash, if_neg hfit, if_neg hfit⟩⟩

theorem store_cutShort (p : Addr) (bs : Bytes) : CutShort L (store p bs) := by
  refine cutShort_of_same fun h => ?_
  -- Whether the bytes may be written is up to the addresses.
  have hsame : (limited L h).checkWritable p bs.length = h.checkWritable p bs.length := rfl
  cases hcheck : h.checkWritable p bs.length with
  | error e =>
    exact ⟨h, rfl, rfl, .inr ⟨e, by rw [store, hcheck], by rw [store, hsame, hcheck]⟩⟩
  | ok u =>
    have hfit := (check_eq_ok_iff.1 (checkWritable_eq_ok_iff.1 hcheck).1).2
    refine ⟨{ h with mem := overwrite h.mem p.toNat bs }, rfl, rfl, .inl ⟨(), ?_, ?_⟩⟩
    · rw [store, hcheck]
      exact write_of_le hfit
    · rw [store, hsame, hcheck]
      exact write_of_le (h := limited L h) hfit

theorem alloc_cutShort (hL : 0 < L) {n : Nat} (hn : n ≤ maxBlock) : CutShort L (alloc n) := by
  rw [alloc, request_of_le hn]
  exact (reserve_cutShort hL n).bind fun _ => cutShort_pure _

theorem allocString_cutShort (hL : 0 < L) (s : Bytes) : CutShort L (allocString s) :=
  (reserve_cutShort hL _).bind fun i => (write_cutShort i s).bind fun _ => cutShort_pure _

theorem allocArray_cutShort (hL : 0 < L) {w : Nat} (hw : w ≤ 255) (count : Int32) :
    CutShort L (allocArray count w) := by
  simp only [allocArray, fault_bind]
  by_cases hc : count < 0
  · rw [if_pos hc]
    exact cutShort_fault _
  have hsize : Int.bmod (count.toInt * w) 0x10000000000000000 = _ :=
    elementsSize_of_nonneg (Int32.not_lt.1 hc) (by omega)
  rw [if_neg hc, hsize, request_of_le (elements_le_maxBlock count hw)]
  refine (reserve_cutShort hL _).bind fun elems => (reserve_cutShort hL _).bind fun header => ?_
  exact (write_cutShort header _).bind fun _ => cutShort_pure _

/-! ## Cells and arrays with given contents -/

theorem boxInt_cutShort (hL : 0 < L) (n : Int32) : CutShort L (boxInt n) :=
  (alloc_cutShort hL (by decide)).bind fun p => (store_cutShort p _).bind fun _ => cutShort_pure p

theorem boxBool_cutShort (hL : 0 < L) (b : Bool) : CutShort L (boxBool b) :=
  (alloc_cutShort hL (n := charSize) (by decide)).bind fun p =>
    .ite ((store_cutShort p _).bind fun _ => cutShort_pure p) (cutShort_pure p)

theorem fillInts_cutShort (p : Addr) (i : Int32) (ns : List Int32) :
    CutShort L (fillInts p i ns) := by
  induction ns generalizing i with
  | nil => exact cutShort_pure ()
  | cons n ns ih =>
    refine .get_bind (fun h => (cutShort_ofResult _).bind fun q => ?_) fun _ => rfl
    exact (store_cutShort q _).bind fun _ => ih (i + 1)

theorem fillStrings_cutShort (hL : 0 < L) (p : Addr) (i : Int32) (ss : List Bytes) :
    CutShort L (fillStrings p i ss) := by
  induction ss generalizing i with
  | nil => exact cutShort_pure ()
  | cons s ss ih =>
    refine (allocString_cutShort hL s).bind fun a => ?_
    refine .get_bind (fun h => (cutShort_ofResult _).bind fun q => ?_) fun _ => rfl
    exact (store_cutShort q _).bind fun _ => ih (i + 1)

theorem fillChars_cutShort (p : Addr) (i : Int32) (bs : Bytes) :
    CutShort L (fillChars p i bs) := by
  induction bs generalizing i with
  | nil => exact cutShort_pure ()
  | cons b bs ih =>
    refine .get_bind (fun h => (cutShort_ofResult _).bind fun q => ?_) fun _ => rfl
    exact (store_cutShort q _).bind fun _ => ih (i + 1)

end Heap

/-! ## Native functions -/

namespace Native

variable {L : Int}

theorem Build.cutShort (hL : 0 < L) (b : Build) : CutShort L b.run := by
  cases b with
  | string s => exact Heap.allocString_cutShort hL s
  | int n => exact Heap.boxInt_cutShort hL n
  | bool b => exact Heap.boxBool_cutShort hL b
  | ints ns =>
    exact (Heap.allocArray_cutShort hL (by decide) _).bind fun p =>
      (Heap.fillInts_cutShort p 0 ns).bind fun _ => cutShort_pure p
  | strings ss =>
    exact (Heap.allocArray_cutShort hL (by decide) _).bind fun p =>
      (Heap.fillStrings_cutShort hL p 0 ss).bind fun _ => cutShort_pure p
  | chars bs =>
    exact (Heap.allocArray_cutShort hL (by decide) _).bind fun p =>
      (Heap.fillChars_cutShort p 0 bs).bind fun _ => cutShort_pure p

theorem Reads.cutShort {α : Type} {x : Action Host α} (hx : Reads x) : CutShort L x := by
  refine cutShort_of_same ?_
  rintro ⟨h, c⟩
  -- A limit does not change the bytes of the heap.
  have hmem : h.mem = (h.setLimit L).mem := rfl
  rcases hx c hmem with ⟨a, d, hs, hs'⟩ | ⟨e, d, hs, hs'⟩
  · exact ⟨⟨h, d⟩, rfl, rfl, .inl ⟨a, hs, hs'⟩⟩
  · exact ⟨⟨h, d⟩, rfl, rfl, .inr ⟨e, hs, hs'⟩⟩

end Native

theorem Host.onHeap_cutShort {α : Type} {L : Int} {x : Action Heap α} (hx : CutShort L x) :
    CutShort L (onHeap x) := by
  refine hx.lift (·.heap) (fun s h => { s with heap := h }) (fun _ => rfl) (fun _ _ => rfl)
    (fun _ => rfl) (fun _ _ => rfl) fun s => ?_
  cases hs : x s.heap <;> simp only [onHeap, hs] <;> rfl

theorem Native.Builds.cutShort {L : Int} (hL : 0 < L) {x : Action Host Cell} (hx : Builds x) :
    CutShort L x := by
  induction hx with
  | nothing hx => exact hx.cutShort
  | one b => exact (Host.onHeap_cutShort (b.cutShort hL)).bind fun _ => cutShort_pure _
  | after hx _ ih => exact hx.cutShort.bind ih

end CZero
