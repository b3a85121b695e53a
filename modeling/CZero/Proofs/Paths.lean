import CZero.Files.Parent
import CZero.Proofs.Files
import Mathlib.Logic.Function.Iterate
import Mathlib.Tactic.SplitIfs

/-!
# Paths of routes

A path from the root on is simplified to the path of a route without empty names and
without dots (`isRoute_clean`), and the paths of such routes are as simple as they can be
(`simplify_ofRoute`). On them, what is done to paths is what its name says: to go up drops
the last name of the route (`parent_ofRoute`), and something in a folder has one name more
(`join_ofRoute`). So on the way up from a folder, the routes are those that its own begins
with, and the root is reached after as many steps as it has names (`iterate_parent`).
-/

namespace CZero

namespace Path

/-- What a file or folder can be called. -/
structure IsName (name : Bytes) : Prop where
  ne_nil : name ≠ []
  ne_dot : name ≠ [dot]
  ne_dots : name ≠ [dot, dot]
  notMem : slash ∉ name

/-- All names of the route are such that files and folders can have. -/
def IsRoute (r : Route) : Prop :=
  ∀ name ∈ r, IsName name

variable {path name : Bytes} {r r' cwd : Route}

theorem isRoute_nil : IsRoute [] :=
  List.forall_mem_nil _

theorem IsRoute.concat (hr : IsRoute r) (h : IsName name) : IsRoute (r ++ [name]) :=
  List.forall_mem_append.2 ⟨hr, List.forall_mem_singleton.2 h⟩

theorem IsRoute.dropLast (hr : IsRoute r) : IsRoute r.dropLast :=
  fun name h => hr name (List.dropLast_subset r h)

theorem IsRoute.take (hr : IsRoute r) (n : Nat) : IsRoute (r.take n) :=
  fun name h => hr name (List.mem_of_mem_take h)

/-! ## Names -/

theorem notMem_of_mem_names (h : name ∈ names path) : slash ∉ name := by
  suffices hcur : ∀ cur, slash ∉ cur → ∀ name ∈ namesAux cur [] path, slash ∉ name from
    hcur [] List.not_mem_nil name h
  clear h
  -- The name that has been begun is any without a slash.
  induction path with
  | nil =>
    intro cur hcur name hname
    rw [List.mem_singleton.1 hname]
    exact mt List.mem_reverse.1 hcur
  | cons b path ih =>
    intro cur hcur name hname
    rw [namesAux] at hname
    split at hname
    · rw [namesAux_eq, List.mem_append] at hname
      rcases hname with hname | hname
      · rw [List.mem_singleton.1 hname]
        exact mt List.mem_reverse.1 hcur
      · exact ih [] List.not_mem_nil name hname
    · next hb =>
      have hne : slash ≠ b := fun hslash => hb (beq_iff_eq.2 hslash.symm)
      exact ih (b :: cur) (List.not_mem_cons_of_ne_of_not_mem hne hcur) name hname

theorem names_of_notMem (h : slash ∉ name) : names name = [name] :=
  namesAux_append h

theorem names_intercalate (hne : r ≠ []) (hr : IsRoute r) : names ([slash].intercalate r) = r := by
  induction r with
  | nil => exact absurd rfl hne
  | cons name r ih =>
    have hname := names_of_notMem (hr name List.mem_cons_self).notMem
    cases r with
    | nil => rw [List.intercalate_singleton, hname]
    | cons name' r =>
      have hrest := ih (List.cons_ne_nil _ _) fun n hn => hr n (List.mem_cons_of_mem _ hn)
      rw [List.intercalate_cons_cons, List.append_assoc, List.singleton_append, names_append_slash,
        hname, hrest]
      rfl

/-! ## Routes -/

theorem enter_of_isName (h : IsName name) : enter r name = r ++ [name] := by
  unfold enter
  rw [if_neg, if_neg]
  · simpa using h.ne_dots
  · simpa using ⟨h.ne_nil, h.ne_dot⟩

theorem isRoute_enter (hr : IsRoute r) (h : slash ∉ name) : IsRoute (enter r name) := by
  unfold enter
  split_ifs with hstay hup
  · exact hr
  · exact hr.dropLast
  · simp only [Bool.or_eq_true, List.isEmpty_iff, beq_iff_eq, not_or] at hstay hup
    exact hr.concat ⟨hstay.1, hstay.2, hup, h⟩

theorem isRoute_foldl (hr : IsRoute r) (h : ∀ name ∈ r', slash ∉ name) :
    IsRoute (r'.foldl enter r) := by
  induction r' generalizing r with
  | nil => exact hr
  | cons name r' ih =>
    rw [List.forall_mem_cons] at h
    exact ih (isRoute_enter hr h.1) h.2

/-- Where a path leads has no empty names and no dots left. -/
theorem isRoute_clean (hcwd : IsRoute cwd) (path : Bytes) : IsRoute (clean cwd path) := by
  refine isRoute_foldl ?_ fun name => notMem_of_mem_names
  split
  · exact isRoute_nil
  · exact hcwd

theorem foldl_enter (hr' : IsRoute r') : r'.foldl enter r = r ++ r' := by
  induction r' generalizing r with
  | nil => exact (List.append_nil r).symm
  | cons name r' ih =>
    rw [IsRoute, List.forall_mem_cons] at hr'
    rw [List.foldl_cons, enter_of_isName hr'.1, ih hr'.2, List.append_assoc]
    rfl

theorem clean_ofRoute (hr : IsRoute r) : clean [] (ofRoute r) = r := by
  by_cases hne : r = []
  · subst hne
    rfl
  · rw [ofRoute, clean, names_slash_cons, names_intercalate hne hr]
    exact foldl_enter hr

theorem clean_append_slash (h : path ≠ []) (b : Bytes) :
    clean cwd (path ++ slash :: b) = (names b).foldl enter (clean cwd path) := by
  rw [clean, isAbsolute_append_slash h, names_append_slash, List.foldl_append]
  rfl

/-! ## Paths from the root on -/

theorem ofRoute_ne_nil (r : Route) : ofRoute r ≠ [] :=
  List.cons_ne_nil _ _

theorem simplify_of_isAbsolute (h : isAbsolute path) : simplify path = ofRoute (clean [] path) :=
  if_pos h

theorem simplify_ofRoute (hr : IsRoute r) : simplify (ofRoute r) = ofRoute r := by
  rw [simplify_of_isAbsolute rfl, clean_ofRoute hr]

theorem join_eq (r : Route) (path : Bytes) :
    join (ofRoute r) path = ofRoute ((names path).foldl enter (clean [] (ofRoute r))) := by
  rw [← clean_append_slash (ofRoute_ne_nil r)]
  rfl

theorem join_ofRoute (hr : IsRoute r) (h : IsName name) :
    join (ofRoute r) name = ofRoute (r ++ [name]) := by
  rw [join_eq, clean_ofRoute hr, names_of_notMem h.notMem, List.foldl_cons, enter_of_isName h]
  rfl

/-- The path from the root on leads where the path leads from the current folder. -/
theorem absolute_eq (cwd : Route) (path : Bytes) :
    absolute cwd path = ofRoute (clean (clean [] (ofRoute cwd)) path) := by
  unfold absolute
  split
  · next h =>
    rw [simplify_of_isAbsolute h, clean, clean, if_pos h, if_pos h]
  · next h =>
    rw [join_eq, clean, clean, if_neg h]

theorem intercalate_concat (hr : r ≠ []) (name : Bytes) :
    [slash].intercalate (r ++ [name]) = [slash].intercalate r ++ slash :: name := by
  induction r with
  | nil => exact absurd rfl hr
  | cons first r ih =>
    cases r with
    | nil => simp [List.intercalate_cons_cons]
    | cons second r =>
      have hrest := ih (List.cons_ne_nil _ _)
      simp only [List.cons_append, List.intercalate_cons_cons, List.append_assoc] at hrest ⊢
      rw [hrest]

theorem parent_ofRoute (hr : IsRoute r) : parent (ofRoute r) = ofRoute r.dropLast := by
  rcases List.eq_nil_or_concat r with rfl | ⟨r, name, rfl⟩
  · rfl
  rw [List.concat_eq_append] at hr ⊢
  have hname := (List.forall_mem_append.1 hr).2 name (List.mem_singleton_self name)
  have hr := (List.forall_mem_append.1 hr).1
  rw [List.dropLast_concat]
  by_cases hne : r = []
  · subst hne
    rw [List.nil_append, ofRoute, List.intercalate_singleton, parent]
    exact congrArg simplify (front_append_slash (a := []) hname.notMem)
  · rw [ofRoute, intercalate_concat hne, ← List.cons_append, parent,
      front_append_slash hname.notMem]
    exact (simplify_append_slash (ofRoute_ne_nil r)).trans (simplify_ofRoute hr)

/-- On the way up from a folder, its names are dropped one by one, from the last to the first. -/
theorem iterate_parent (hr : IsRoute r) (n : Nat) :
    parent^[n] (ofRoute r) = ofRoute (r.take (r.length - n)) := by
  induction n with
  | zero =>
    rw [Nat.sub_zero, List.take_length]
    rfl
  | succ n ih =>
    rw [Function.iterate_succ_apply', ih, parent_ofRoute (hr.take _), List.dropLast_eq_take,
      List.length_take, Nat.min_eq_left (Nat.sub_le _ _), List.take_take,
      Nat.min_eq_left (Nat.sub_le _ _)]
    rfl

end Path

end CZero
