import CZero.Config
import CZero.Proofs.Paths
import Mathlib.Data.Nat.Find

/-!
# The nearest configuration

Without a path, the configuration is looked for in the folder that the program is started
in, in the folder around it, and so on up to the root. The search ends at the first of
these folders that has a file or a folder of the right name. What is there is loaded, and
if that fails, the search fails: it does not go on (`loadFrom_of_isNearest`). It finds
nothing exactly if none of the folders has one (`loadFrom_eq_none_iff`).

The search is by paths, so it comes to an end because the paths get shorter; that they are
the paths of the folders in question is what `Path.iterate_parent` says.
-/

namespace CZero

namespace Config

variable {fs : Files} {path folder : Bytes} {c : Config} {n : Nat} {decode : Decoder}

/-! ## Loading one file -/

theorem check_eq_ok {c' : Config} (h : check path c = .ok c') :
    0 ≤ c'.maxCallDepth ∧ 0 ≤ c'.heapLimit ∧ c'.path = path := by
  unfold check at h
  split at h
  · cases h
  split at h
  · cases h
  cases h
  exact ⟨Int.not_lt.1 ‹_›, Int.not_lt.1 ‹_›, rfl⟩

/-- A configuration that is loaded has bounds and knows its file. -/
theorem load_eq_ok (h : load fs path decode = .ok c) :
    0 ≤ c.maxCallDepth ∧ 0 ≤ c.heapLimit ∧ c.path = path := by
  unfold load at h
  split at h
  · cases h
  unfold parse at h
  split at h
  · cases h
  · exact check_eq_ok h
  · cases h

/-! ## The search -/

/-- The path of the configuration file of the folder `n` folders above `folder`. -/
def candidate (folder : Bytes) (n : Nat) : Bytes :=
  Path.join (Path.parent^[n] folder) fileName

/-- The nearest configuration file is that of the folder `n` folders above `folder`. -/
structure IsNearest (fs : Files) (folder : Bytes) (n : Nat) : Prop where
  contains : fs.contains (candidate folder n)
  first : ∀ i < n, ¬fs.contains (candidate folder i)

theorem candidate_parent (folder : Bytes) (n : Nat) :
    candidate (Path.parent folder) n = candidate folder (n + 1) :=
  rfl

/-- At the last folder, the search has no more candidates. -/
theorem candidate_of_fixed (h : Path.parent folder = folder) (n : Nat) :
    candidate folder n = candidate folder 0 := by
  rw [candidate, Function.iterate_fixed h]
  rfl

/-- The nearest file, if it is not in the folder itself, is the nearest one to the folder
    around. -/
theorem IsNearest.parent (h : IsNearest fs folder (n + 1)) :
    IsNearest fs (Path.parent folder) n where
  contains := h.contains
  first i hi := h.first (i + 1) (Nat.succ_lt_succ hi)

theorem exists_isNearest (h : fs.contains (candidate folder n)) : ∃ n, IsNearest fs folder n := by
  have hex : ∃ n, fs.contains (candidate folder n) := ⟨n, h⟩
  exact ⟨Nat.find hex, Nat.find_spec hex, fun i hi => Nat.find_min hex hi⟩

theorem loadFrom_of_contains (h : fs.contains (candidate folder 0)) :
    loadFrom fs folder decode = (load fs (candidate folder 0) decode).map some := by
  rw [loadFrom]
  exact if_pos h

theorem loadFrom_of_fixed (h : ¬fs.contains (candidate folder 0))
    (hfixed : Path.parent folder = folder) : loadFrom fs folder decode = .ok none := by
  rw [loadFrom]
  exact (if_neg h).trans (if_pos hfixed)

theorem loadFrom_of_ne (h : ¬fs.contains (candidate folder 0))
    (hne : Path.parent folder ≠ folder) :
    loadFrom fs folder decode = loadFrom fs (Path.parent folder) decode := by
  rw [loadFrom]
  exact (if_neg h).trans (if_neg hne)

/-- The search ends with the nearest file, whatever comes of loading it. -/
theorem loadFrom_of_isNearest (h : IsNearest fs folder n) :
    loadFrom fs folder decode = (load fs (candidate folder n) decode).map some := by
  induction n generalizing folder with
  | zero => exact loadFrom_of_contains h.contains
  | succ n ih =>
    have hfirst := h.first 0 (Nat.succ_pos n)
    have hne : Path.parent folder ≠ folder := by
      intro hfixed
      rw [← candidate_of_fixed hfixed (n + 1)] at hfirst
      exact hfirst h.contains
    rw [loadFrom_of_ne hfirst hne, ih h.parent, candidate_parent]

theorem loadFrom_of_forall (h : ∀ n, ¬fs.contains (candidate folder n)) :
    loadFrom fs folder decode = .ok none := by
  -- The induction is that of the search: the folder around has a smaller rank.
  induction folder using loadFrom.induct fs with
  | case1 folder path hcontains => exact absurd hcontains (h 0)
  | case2 folder path hcontains hfixed => exact loadFrom_of_fixed (h 0) hfixed
  | case3 folder path hcontains hne ih =>
    rw [loadFrom_of_ne (h 0) hne]
    exact ih fun n => h (n + 1)

theorem map_some_ne_none (x : Except Error Config) : x.map some ≠ .ok none := by
  cases x <;> nofun

theorem loadFrom_eq_none_iff :
    loadFrom fs folder decode = .ok none ↔ ∀ n, ¬fs.contains (candidate folder n) := by
  refine ⟨fun h n hn => ?_, loadFrom_of_forall⟩
  obtain ⟨k, hk⟩ := exists_isNearest hn
  rw [loadFrom_of_isNearest hk] at h
  exact map_some_ne_none _ h

theorem loadFrom_eq_some (h : loadFrom fs folder decode = .ok (some c)) :
    ∃ n, IsNearest fs folder n ∧ load fs (candidate folder n) decode = .ok c := by
  by_cases hex : ∃ n, fs.contains (candidate folder n)
  · obtain ⟨n, hn⟩ := hex
    obtain ⟨k, hk⟩ := exists_isNearest hn
    rw [loadFrom_of_isNearest hk] at h
    refine ⟨k, hk, ?_⟩
    cases hload : load fs (candidate folder k) decode with
    | error e =>
      rw [hload] at h
      cases h
    | ok c' =>
      rw [hload] at h
      cases h
      rfl
  · rw [loadFrom_of_forall (not_exists.1 hex)] at h
    cases h

theorem isName_fileName : Path.IsName fileName :=
  ⟨by decide, by decide, by decide, by decide⟩

/-- The nearest configuration is the one that counts, however documents are read. The search
    looks at the folders whose routes are `r`, the route of `start`, and what `r` begins with,
    down to no name at all, which is the root. The first of them that has a file or a folder
    with the name of a configuration file settles the matter: the result is that of loading it,
    an error included. There is neither a configuration nor an error exactly if none of them has
    one. A configuration that is found has bounds that are not negative, and the path of its
    file. -/
theorem nearest_wins (fs : Files) (start : Bytes) (decode : Decoder) :
    ∃ r : Route, Path.IsRoute r ∧
      (∀ n, Path.parent^[n] (Path.absolute fs.cwd start) = Path.ofRoute (r.take (r.length - n)) ∧
        candidate (Path.absolute fs.cwd start) n =
          Path.ofRoute (r.take (r.length - n) ++ [fileName])) ∧
      (∀ n, IsNearest fs (Path.absolute fs.cwd start) n →
        loadNearest fs start decode =
          (load fs (candidate (Path.absolute fs.cwd start) n) decode).map some) ∧
      (loadNearest fs start decode = .ok none ↔
        ∀ n, ¬fs.contains (candidate (Path.absolute fs.cwd start) n)) ∧
      ∀ c, loadNearest fs start decode = .ok (some c) →
        0 ≤ c.maxCallDepth ∧ 0 ≤ c.heapLimit ∧
          ∃ n, IsNearest fs (Path.absolute fs.cwd start) n ∧
            c.path = candidate (Path.absolute fs.cwd start) n := by
  have hcwd := Path.isRoute_clean Path.isRoute_nil (Path.ofRoute fs.cwd)
  have hroute := Path.isRoute_clean hcwd start
  refine ⟨_, hroute, fun n => ?_, fun n => loadFrom_of_isNearest, loadFrom_eq_none_iff,
    fun c hc => ?_⟩
  · have hfolder := Path.iterate_parent hroute n
    rw [← Path.absolute_eq] at hfolder
    refine ⟨hfolder, ?_⟩
    rw [candidate, hfolder, Path.join_ofRoute (hroute.take _) isName_fileName]
  · obtain ⟨n, hn, hload⟩ := loadFrom_eq_some hc
    obtain ⟨hdepth, hlimit, hpath⟩ := load_eq_ok hload
    exact ⟨hdepth, hlimit, n, hn, hpath⟩

/-- Two folders, of which the outer one has a folder in the place of its configuration file,
    and a configuration file at the root. -/
def nested : Files where
  nodes := [([utf8 "a"], .folder 0), ([utf8 "a", utf8 "b"], .folder 0),
    ([utf8 "a", fileName], .folder 0),
    ([fileName], .file (utf8 "[vm]\nheap-limit = 8\n") 0)]
  cwd := [utf8 "a", utf8 "b"]

/-- The folder in the place of the file is not skipped. -/
theorem nearest_wins_nested :
    IsNearest nested (Path.absolute nested.cwd (utf8 ".//")) 1 ∧
    loadNearest nested (utf8 ".//") =
      .error (.unreadable (utf8 "/a/c0vm.toml") (.reading (utf8 "/a/c0vm.toml") .isFolder)) ∧
    loadNearest nested (utf8 "/a/..") =
      .ok (some { heapLimit := 8, path := utf8 "/c0vm.toml" }) := by
  have hinner : IsNearest nested (Path.absolute nested.cwd (utf8 ".//")) 1 :=
    ⟨by decide +kernel, by decide +kernel⟩
  have houter : IsNearest nested (Path.absolute nested.cwd (utf8 "/a/..")) 0 :=
    ⟨by decide +kernel, by decide +kernel⟩
  obtain ⟨_, -, -, hload, -⟩ := nearest_wins nested (utf8 ".//") toml
  obtain ⟨_, -, -, hload', -⟩ := nearest_wins nested (utf8 "/a/..") toml
  refine ⟨hinner, (hload 1 hinner).trans ?_, (hload' 0 houter).trans ?_⟩
  · decide +kernel
  · decide +kernel

end Config

end CZero
