import CZero.Files.Path

/-!
# Paths made of paths

What can be made of a path without a look at the files is again a path: a shorter one
that leads to the same place, the path of something in a folder, the path from the root,
the path of the folder around. It leads to the right place as far as names can tell.

To go from a folder to its parent comes to an end: at the root, or at the current folder
for a path that does not start at the root. Every step before that makes the path shorter
(`rank_parent_lt`).
-/

namespace CZero

namespace Path

/-- Where a name leads from the end of a path that does not start at the root. To leave the
    folder that such a path starts in, it needs the name with two dots. -/
def enterRelative (r : List Bytes) (name : Bytes) : List Bytes :=
  if name == [dot, dot] && (r.isEmpty || r.getLast? == some [dot, dot]) then r ++ [name]
  else enter r name

/-- The shortest path that leads where a path leads. -/
def simplify (path : Bytes) : Bytes :=
  if isAbsolute path then ofRoute (clean [] path)
  else
    let r := (names path).foldl enterRelative []
    if r.isEmpty then [dot] else [slash].intercalate r

/-- A path to what `path` leads to from `folder`. If one of the two is empty, it is left out. -/
def join (folder path : Bytes) : Bytes :=
  if !folder.isEmpty then simplify (folder ++ slash :: path)
  else if !path.isEmpty then simplify path
  else []

/-- A path from the root on that leads where `path` leads from `cwd`. -/
def absolute (cwd : Route) (path : Bytes) : Bytes :=
  if isAbsolute path then simplify path else join (ofRoute cwd) path

/-- A path up to its last slash; empty if it has none. -/
def front (path : Bytes) : Bytes :=
  (path.reverse.dropWhile (· != slash)).reverse

/-- The folder around what a path leads to. -/
def parent (path : Bytes) : Bytes :=
  simplify (front path)

/-! ## Names -/

variable {path : Bytes} {r : List Bytes}

theorem namesAux_eq (cur : Bytes) (done : List Bytes) (path : Bytes) :
    namesAux cur done path = done.reverse ++ namesAux cur [] path := by
  induction path generalizing cur done with
  | nil => simp [namesAux]
  | cons b bs ih =>
    simp only [namesAux]
    split
    · rw [ih [] (cur.reverse :: done), ih [] [cur.reverse]]
      simp
    · exact ih (b :: cur) done

/-- A slash separates the names before it from those behind it. -/
theorem names_append_slash (a b : Bytes) : names (a ++ slash :: b) = names a ++ names b := by
  suffices h : ∀ cur, namesAux cur [] (a ++ slash :: b) = namesAux cur [] a ++ names b from h []
  induction a with
  | nil =>
    intro cur
    change namesAux [] [cur.reverse] b = _
    rw [namesAux_eq]
    rfl
  | cons c a ih =>
    intro cur
    rw [List.cons_append, namesAux, namesAux]
    split
    · rw [namesAux_eq, ih, namesAux_eq [] [cur.reverse] a, List.append_assoc]
    · exact ih (c :: cur)

theorem isAbsolute_append_slash (h : path ≠ []) (b : Bytes) :
    isAbsolute (path ++ slash :: b) = isAbsolute path := by
  cases path with
  | nil => exact absurd rfl h
  | cons b path => rfl

theorem names_slash_cons (path : Bytes) : names (slash :: path) = [] :: names path :=
  names_append_slash [] path

/-! ## Lengths -/

/-- What names take in a path, if a slash goes with each of them. -/
def weight : List Bytes → Nat
  | [] => 0
  | name :: r => name.length + 1 + weight r

@[simp] theorem weight_nil : weight [] = 0 := rfl

@[simp] theorem weight_cons (name : Bytes) (r : List Bytes) :
    weight (name :: r) = name.length + 1 + weight r := rfl

@[simp] theorem weight_append (r r' : List Bytes) : weight (r ++ r') = weight r + weight r' := by
  induction r with
  | nil => exact (Nat.zero_add _).symm
  | cons name r ih =>
    rw [List.cons_append, weight_cons, weight_cons, ih]
    exact (Nat.add_assoc _ _ _).symm

theorem weight_dropLast_le (r : List Bytes) : weight r.dropLast ≤ weight r := by
  rcases List.eq_nil_or_concat r with rfl | ⟨r, name, rfl⟩
  · exact Nat.le_refl _
  · simp

theorem weight_namesAux (cur : Bytes) (path : Bytes) :
    weight (namesAux cur [] path) = cur.length + path.length + 1 := by
  induction path generalizing cur with
  | nil => simp [namesAux]
  | cons b bs ih =>
    rw [namesAux]
    split
    · rw [namesAux_eq, weight_append, ih]
      simp
      omega
    · rw [ih, List.length_cons, List.length_cons]
      omega

theorem weight_names (path : Bytes) : weight (names path) = path.length + 1 := by
  rw [names, weight_namesAux]
  simp

theorem weight_enter_le (r : List Bytes) (name : Bytes) :
    weight (enter r name) ≤ weight r + (name.length + 1) := by
  have := weight_dropLast_le r
  unfold enter
  split
  · omega
  · split
    · omega
    · simp

theorem weight_enterRelative_le (r : List Bytes) (name : Bytes) :
    weight (enterRelative r name) ≤ weight r + (name.length + 1) := by
  unfold enterRelative
  split
  · simp
  · exact weight_enter_le r name

theorem weight_foldl_le {f : List Bytes → Bytes → List Bytes}
    (hf : ∀ r name, weight (f r name) ≤ weight r + (name.length + 1)) (l r : List Bytes) :
    weight (l.foldl f r) ≤ weight r + weight l := by
  induction l generalizing r with
  | nil => simp
  | cons name l ih =>
    have := hf r name
    have := ih (f r name)
    rw [List.foldl_cons, weight_cons]
    omega

theorem length_intercalate (hr : r ≠ []) : ([slash].intercalate r).length + 1 = weight r := by
  induction r with
  | nil => exact absurd rfl hr
  | cons name r ih =>
    cases r with
    | nil => simp
    | cons name' r =>
      have := ih (List.cons_ne_nil _ _)
      rw [List.intercalate_cons_cons, weight_cons]
      simp only [List.length_append, List.length_singleton]
      omega

theorem length_ofRoute_le (r : Route) : (ofRoute r).length ≤ max 1 (weight r) := by
  by_cases hr : r = []
  · subst hr
    exact Nat.le_max_left 1 0
  · have := length_intercalate hr
    rw [ofRoute, List.length_cons]
    omega

/-- A trailing slash makes no difference, unless it is the root. -/
theorem simplify_append_slash (h : path ≠ []) : simplify (path ++ [slash]) = simplify path := by
  have hnames : names (path ++ [slash]) = names path ++ [[]] := names_append_slash path []
  simp only [simplify, isAbsolute_append_slash h, clean, hnames, List.foldl_append]
  rfl

/-! ## Going up comes to an end -/

/-- How long going up from a path can take. -/
def rank (path : Bytes) : Nat :=
  if path = [dot] then 0 else path.length + 1

theorem rank_le (path : Bytes) : rank path ≤ path.length + 1 := by
  unfold rank
  split <;> omega

theorem rank_of_mem (h : slash ∈ path) : rank path = path.length + 1 := by
  rw [rank, if_neg]
  rintro rfl
  exact absurd h (by decide)

theorem rank_simplify_le (path : Bytes) : rank (simplify path) ≤ path.length + 1 := by
  unfold simplify
  split
  · next habsolute =>
    obtain ⟨path, rfl⟩ : ∃ p, path = slash :: p := by
      cases path with
      | nil => cases habsolute
      | cons b p => exact ⟨p, by simpa [isAbsolute] using habsolute⟩
    have hweight : weight (clean [] (slash :: path)) ≤ path.length + 1 := by
      rw [clean, names_slash_cons, ← weight_names]
      -- The empty name before the first slash leads nowhere.
      change weight ((names path).foldl enter []) ≤ _
      simpa using weight_foldl_le weight_enter_le (names path) []
    have := length_ofRoute_le (clean [] (slash :: path))
    have := rank_le (ofRoute (clean [] (slash :: path)))
    rw [List.length_cons]
    omega
  · dsimp only
    split
    · exact Nat.zero_le _
    · next hne =>
      have hweight := weight_foldl_le weight_enterRelative_le (names path) []
      rw [weight_names] at hweight
      have := length_intercalate (mt List.isEmpty_iff.2 hne)
      have := rank_le ([slash].intercalate ((names path).foldl enterRelative []))
      simp only [weight_nil] at hweight
      omega

theorem dropWhile_reverse {name : Bytes} (h : slash ∉ name) (bs : Bytes) :
    (name.reverse ++ bs).dropWhile (· != slash) = bs.dropWhile (· != slash) :=
  List.dropWhile_append_of_pos fun _ hb =>
    bne_iff_ne.2 fun hslash => h (hslash ▸ List.mem_reverse.1 hb)

theorem front_append_slash {a name : Bytes} (h : slash ∉ name) :
    front (a ++ slash :: name) = a ++ [slash] := by
  rw [front, List.reverse_append, List.reverse_cons, List.append_assoc, dropWhile_reverse h,
    List.singleton_append, List.dropWhile_cons_of_neg (by simp), List.reverse_cons,
    List.reverse_reverse]

theorem front_of_notMem (h : slash ∉ path) : front path = [] := by
  rw [front, ← List.append_nil path.reverse, dropWhile_reverse h]
  rfl

theorem eq_append_slash_of_mem (h : slash ∈ path) :
    ∃ a name, path = a ++ slash :: name ∧ slash ∉ name := by
  obtain ⟨name, a, hpath, hname⟩ := List.eq_append_cons_of_mem (List.mem_reverse.2 h)
  refine ⟨a.reverse, name.reverse, ?_, by simpa using hname⟩
  rw [← List.reverse_inj, hpath]
  simp

/-- Going up makes a path shorter, if it leads anywhere else. -/
theorem rank_parent_lt (h : parent path ≠ path) : rank (parent path) < rank path := by
  by_cases hmem : slash ∈ path
  · have hrank := rank_of_mem hmem
    obtain ⟨a, name, rfl, hname⟩ := eq_append_slash_of_mem hmem
    rw [parent, front_append_slash hname] at h ⊢
    rw [hrank, List.length_append, List.length_cons]
    by_cases ha : a = []
    · subst ha
      change [slash] ≠ slash :: name at h
      change 2 < _
      have hpos : 0 < name.length := List.length_pos_iff.2 fun hname => h (hname ▸ rfl)
      omega
    · rw [simplify_append_slash ha]
      have := rank_simplify_le a
      omega
  · rw [parent, front_of_notMem hmem] at h ⊢
    change [dot] ≠ path at h
    change 0 < rank path
    rw [rank, if_neg h.symm]
    omega

end Path

end CZero
