import CZero.Files.Basic
import Mathlib.Data.List.Basic

/-!
# Files by route

What the files are is seen through `Files.file?`, the content and the time of the file
that a route leads to; folders, whose times change when something is made in them, do
not show in it. Each operation on the files is described by what it does to this view.

Paths that differ only in how their last name ends lead to files beside each other
(`exists_beside`): the routes that they are located at have the same folder, and their
last names differ in the same way.
-/

namespace CZero

open CZero.Path (slash dot)

namespace Path

/-! ## Names -/

theorem namesAux_append {cur : Bytes} {done : List Bytes} {ext : Bytes} (hext : slash ∉ ext) :
    namesAux cur done ext = done.reverse ++ [cur.reverse ++ ext] := by
  induction ext generalizing cur with
  | nil => simp [namesAux]
  | cons b ext ih =>
    rw [List.mem_cons, not_or] at hext
    rw [namesAux, if_neg (by simpa using Ne.symm hext.1), ih hext.2]
    simp

/-- What is put behind a path is put behind its last name. -/
theorem exists_names_append (stem : Bytes) :
    ∃ folders name, ∀ ext, slash ∉ ext → names (stem ++ ext) = folders ++ [name ++ ext] := by
  suffices h : ∀ cur done, ∃ folders name, ∀ ext, slash ∉ ext →
      namesAux cur done (stem ++ ext) = folders ++ [name ++ ext] from h [] []
  -- The name that has been begun, and those before it, are any.
  induction stem with
  | nil => exact fun cur done => ⟨done.reverse, cur.reverse, fun ext => namesAux_append⟩
  | cons b stem ih =>
    intro cur done
    simp only [List.cons_append, namesAux]
    split
    · exact ih [] (cur.reverse :: done)
    · exact ih (b :: cur) done

/-- The last name of a path is its end. -/
theorem exists_names_eq (path : Bytes) :
    ∃ folders last front, names path = folders ++ [last] ∧ path = front ++ last := by
  suffices h : ∀ cur done, ∃ folders last front,
      namesAux cur done path = folders ++ [last] ∧ cur.reverse ++ path = front ++ last from
    h [] []
  -- The name that has been begun, and those before it, are any.
  induction path with
  | nil => exact fun cur done => ⟨done.reverse, cur.reverse, [], by simp [namesAux], by simp⟩
  | cons b path ih =>
    intro cur done
    rw [namesAux]
    split
    · next hslash =>
      obtain ⟨folders, last, front, hnames, hpath⟩ := ih [] (cur.reverse :: done)
      refine ⟨folders, last, cur.reverse ++ b :: front, hnames, ?_⟩
      rw [List.append_assoc, List.cons_append, ← hpath]
      rfl
    · obtain ⟨folders, last, front, hnames, hpath⟩ := ih (b :: cur) done
      refine ⟨folders, last, front, hnames, ?_⟩
      rw [← hpath]
      simp

theorem isAbsolute_append {stem ext : Bytes} (hext : slash ∉ ext) :
    isAbsolute (stem ++ ext) = isAbsolute stem := by
  cases stem with
  | cons b stem => rfl
  | nil =>
    cases ext with
    | nil => rfl
    | cons b ext =>
      rw [List.mem_cons, not_or] at hext
      simpa [isAbsolute] using Ne.symm hext.1

theorem enter_of_two_lt {r : Route} {name : Bytes} (h : 2 < name.length) :
    enter r name = r ++ [name] := by
  match name, h with
  | a :: b :: c :: name, _ => simp [enter]

/-- A path ends with its extension. -/
theorem exists_eq_append_extension (path : Bytes) : ∃ stem, path = stem ++ extension path := by
  rw [extension]
  split
  · next hdot =>
    have hpath := List.takeWhile_append_dropWhile (p := (· != slash)) (l := path.reverse)
    generalize path.reverse.takeWhile (· != slash) = name at hdot hpath ⊢
    generalize path.reverse.dropWhile (· != slash) = folders at hpath
    -- The path is looked at from its end: the extension up to its dot, the rest of the
    -- name, the folders.
    obtain ⟨front, back, rfl, hfront⟩ := List.eq_append_cons_of_mem (List.contains_iff_mem.1 hdot)
    have htake : (front ++ dot :: back).takeWhile (· != dot) = front := by
      rw [List.takeWhile_append_of_pos, List.takeWhile_cons_of_neg (by simp), List.append_nil]
      intro b hb
      exact bne_iff_ne.2 fun h => hfront (h ▸ hb)
    refine ⟨(back ++ folders).reverse, ?_⟩
    rw [htake, ← List.reverse_inj, ← hpath]
    simp
  · exact ⟨path, (List.append_nil path).symm⟩

theorem withExtension_append {stem ext : Bytes} (h : extension (stem ++ ext) = ext) (ext' : Bytes) :
    withExtension (stem ++ ext) ext' = stem ++ ext' := by
  rw [withExtension, h, List.length_append, Nat.add_sub_cancel, List.take_left]

end Path

/-- The content and the time of a file. -/
def Node.file? : Node → Option (Bytes × Int)
  | .file content t => some (content, t)
  | .folder _ => none

theorem Node.file?_withTime (t : Int) (n : Node) :
    (n.withTime t).file? = n.file?.map fun (content, _) => (content, t) := by
  cases n with
  | file content u | folder u => rfl

namespace Files

variable {fs fs' : Files} {r : Route}

/-! ## Nodes -/

theorem lookup_cons_of_ne {nodes : List (Route × Node)} {n : Node} {r' : Route} (h : r' ≠ r) :
    ((r, n) :: nodes).lookup r' = nodes.lookup r' := by
  rw [List.lookup_cons, beq_eq_false_iff_ne.2 h]

theorem lookup_filter_ne {nodes : List (Route × Node)} {r' : Route} (h : r' ≠ r) :
    (nodes.filter (·.1 != r)).lookup r' = nodes.lookup r' := by
  induction nodes with
  | nil => rfl
  | cons n nodes ih =>
    obtain ⟨s, n⟩ := n
    by_cases hs : s = r
    · subst hs
      rw [List.filter_cons_of_neg (by simp), ih, lookup_cons_of_ne h]
    · rw [List.filter_cons_of_pos (by simpa using hs), List.lookup_cons, List.lookup_cons, ih]

theorem node?_setNode (hr : r ≠ []) (n : Node) (r' : Route) :
    (fs.setNode r n).node? r' = if r' = r then some n else fs.node? r' := by
  rw [node?, node?, setNode]
  split_ifs with hroot heq heq
  · exact absurd (heq ▸ List.isEmpty_iff.1 hroot) hr
  · rfl
  · rw [heq, List.lookup_cons_self]
  · rw [lookup_cons_of_ne heq, lookup_filter_ne heq]

theorem node?_of_ne_nil (hr : r ≠ []) : fs.node? r = fs.nodes.lookup r := by
  rw [node?, if_neg (mt List.isEmpty_iff.1 hr)]

/-- The content and the time of the file that a route leads to, if it leads to one. -/
def file? (fs : Files) (r : Route) : Option (Bytes × Int) :=
  (fs.node? r).bind Node.file?

theorem file?_eq_some_iff {content : Bytes} {t : Int} :
    fs.file? r = some (content, t) ↔ fs.node? r = some (.file content t) := by
  rw [file?]
  rcases fs.node? r with _ | _ | _ <;> simp [Node.file?]

theorem file?_setNode (hr : r ≠ []) (n : Node) (r' : Route) :
    (fs.setNode r n).file? r' = if r' = r then n.file? else fs.file? r' := by
  rw [file?, file?, node?_setNode hr]
  split_ifs with h
  · rfl
  · rfl

theorem file?_setTime (r : Route) (t : Int) (r' : Route) :
    (fs.setTime r t).file? r' =
      if r' = r then (fs.file? r').map fun (content, _) => (content, t) else fs.file? r' := by
  rw [setTime]
  split
  · next hroot =>
    obtain rfl := List.isEmpty_iff.1 hroot
    split_ifs with h
    · rw [h]
      rfl
    · rfl
  · next hroot =>
    have hr : r ≠ [] := mt List.isEmpty_iff.2 hroot
    split
    · next n hn =>
      rw [file?_setNode hr]
      split_ifs with h
      · rw [h, file?, node?_of_ne_nil hr, hn, Option.bind_some, Node.file?_withTime]
      · rfl
    · next hn =>
      split_ifs with h
      · rw [h, file?, node?_of_ne_nil hr, hn]
        rfl
      · rfl

/-! ## Operations on paths -/

theorem step_eq_ok {name : Bytes} {r' : Route} (h : fs.step r name = .ok r') :
    (∃ t, fs.node? r = some (.folder t)) ∧ r' = Path.enter r name := by
  rw [step] at h
  split at h
  · cases h
  · cases h
  · next t hnode =>
    split at h
    · cases h
    · cases h
      exact ⟨⟨t, hnode⟩, rfl⟩

theorem locate_eq_ok {path : Bytes} (h : fs.locate path = .ok r) :
    (Path.names path).foldlM fs.step (if Path.isAbsolute path then [] else fs.cwd) = .ok r := by
  rw [locate] at h
  split at h
  · cases h
  split at h
  · cases h
  split at h
  · cases h
  exact h

/-- Where the paths lead that begin with `stem` and end in a name: to names in one
    folder. -/
theorem exists_beside (fs : Files) (stem : Bytes) :
    ∃ folder name, ∀ ext, slash ∉ ext → 2 < ext.length → ∀ r, fs.locate (stem ++ ext) = .ok r →
      r = folder ++ [name ++ ext] ∧ ∃ t, fs.node? folder = some (.folder t) := by
  obtain ⟨folders, name, hnames⟩ := Path.exists_names_append stem
  cases hfolder : folders.foldlM fs.step (if Path.isAbsolute stem then [] else fs.cwd) with
  | error e =>
    -- The folder is not there, so none of the paths leads anywhere.
    refine ⟨[], [], fun ext hext hlen r h => ?_⟩
    have hsteps := locate_eq_ok h
    rw [hnames ext hext, Path.isAbsolute_append hext, List.foldlM_append, hfolder] at hsteps
    cases hsteps
  | ok folder =>
    refine ⟨folder, name, fun ext hext hlen r h => ?_⟩
    have hsteps := locate_eq_ok h
    rw [hnames ext hext, Path.isAbsolute_append hext, List.foldlM_append, hfolder] at hsteps
    have hlast : fs.step folder (name ++ ext) = .ok r := by
      change List.foldlM fs.step folder [name ++ ext] = .ok r at hsteps
      simpa only [List.foldlM_cons, List.foldlM_nil, bind_pure] using hsteps
    obtain ⟨hnode, rfl⟩ := step_eq_ok hlast
    refine ⟨Path.enter_of_two_lt ?_, hnode⟩
    rw [List.length_append]
    omega

theorem find_eq_ok_iff {path : Bytes} {n : Node} :
    fs.find path = .ok n ↔ ∃ r, fs.locate path = .ok r ∧ fs.node? r = some n := by
  rw [find]
  cases hr : fs.locate path with
  | error e => simp [bind, Except.bind]
  | ok r => cases hn : fs.node? r <;> simp [bind, Except.bind, hn]

theorem read_eq_ok_iff {path content : Bytes} :
    fs.read path = .ok content ↔
      ∃ r t, fs.locate path = .ok r ∧ fs.file? r = some (content, t) := by
  have hfind : fs.read path = .ok content ↔ ∃ t, fs.find path = .ok (.file content t) := by
    rw [read]
    rcases fs.find path with _ | _ | _ <;> simp
  simp only [hfind, find_eq_ok_iff, file?_eq_some_iff]
  exact exists_comm

theorem exists_locate_of_changed? {path : Bytes} {t : Int} (h : fs.changed? path = some t) :
    ∃ r, fs.locate path = .ok r := by
  rw [changed?] at h
  split at h
  · next n hn =>
    obtain ⟨r, hr, -⟩ := find_eq_ok_iff.1 hn
    exact ⟨r, hr⟩
  · cases h

theorem changed?_of_file? {path content : Bytes} {t : Int} (hr : fs.locate path = .ok r)
    (hfile : fs.file? r = some (content, t)) : fs.changed? path = some t := by
  rw [changed?, find_eq_ok_iff.2 ⟨r, hr, file?_eq_some_iff.1 hfile⟩]
  rfl

theorem exists_locate_of_write {path content : Bytes} (h : fs.write path content = .ok fs') :
    ∃ r, fs.locate path = .ok r := by
  rw [write] at h
  split at h
  · cases h
  · next r hr => exact ⟨r, hr⟩

/-- Writing changes one file only. -/
theorem file?_write {path content : Bytes} {folder : Route} {name : Bytes} {t : Int}
    (hwrite : fs.write path content = .ok fs') (hr : fs.locate path = .ok (folder ++ [name]))
    (hfolder : fs.node? folder = some (.folder t)) (r : Route) :
    fs'.file? r = if r = folder ++ [name] then some (content, fs.clock) else fs.file? r := by
  have hne : folder ++ [name] ≠ [] := List.concat_ne_nil name folder
  simp only [write, hr] at hwrite
  split at hwrite
  · cases hwrite
  · next hnode =>
    cases hwrite
    exact file?_setNode hne _ r
  · next hnode =>
    cases hwrite
    rw [create, List.dropLast_concat, file?_setNode hne, file?_setTime]
    -- The folder gets a new time, which is no matter of a file.
    have hfile : fs.file? folder = none := by
      rw [file?, hfolder]
      rfl
    split_ifs with h hr
    · rfl
    · rw [hr, hfile]
      rfl
    · rfl

/-! ## What writing leaves as it is -/

/-- The route leads to a folder. -/
def IsFolder (fs : Files) (r : Route) : Prop :=
  ∃ t, fs.node? r = some (.folder t)

/-- All files but the one at `r` are as they were, and so are the folders, their times aside. -/
structure SameBut (r : Route) (fs fs' : Files) : Prop where
  cwd : fs'.cwd = fs.cwd
  folder : ∀ s, fs'.IsFolder s ↔ fs.IsFolder s
  file : ∀ s ≠ r, fs'.file? s = fs.file? s

theorem SameBut.symm {fs fs' : Files} {r : Route} (h : SameBut r fs fs') : SameBut r fs' fs where
  cwd := h.cwd.symm
  folder s := (h.folder s).symm
  file s hs := (h.file s hs).symm

/-- Everything lies in a folder. -/
def IsTree (fs : Files) : Prop :=
  ∀ n ∈ fs.nodes, fs.IsFolder n.1.dropLast

theorem not_isFolder_of_file? {fs : Files} {r : Route} {content : Bytes} {t : Int}
    (h : fs.file? r = some (content, t)) : ¬fs.IsFolder r := by
  rintro ⟨u, hu⟩
  cases (file?_eq_some_iff.1 h).symm.trans hu

theorem isFolder_nil (fs : Files) : fs.IsFolder [] :=
  ⟨0, rfl⟩

theorem IsTree.dropLast (h : fs.IsTree) (hr : fs.IsFolder r) : fs.IsFolder r.dropLast := by
  by_cases hroot : r = []
  · rw [hroot]
    exact fs.isFolder_nil
  · obtain ⟨t, ht⟩ := hr
    rw [node?_of_ne_nil hroot] at ht
    obtain ⟨front, back, hnodes, -⟩ := List.lookup_eq_some_iff.1 ht
    exact h (r, .folder t) (hnodes ▸ List.mem_append_cons_self)

theorem step_eq_ok_iff {name : Bytes} {s : Route} :
    fs.step r name = .ok s ↔
      fs.IsFolder r ∧ name.length ≤ nameLimit ∧ Path.enter r name = s := by
  rw [step, IsFolder]
  split
  · next hnode => simp [hnode]
  · next hnode => simp [hnode]
  · next hnode =>
    split
    · simp [hnode, Nat.not_le.2 ‹_›]
    · simp [hnode, Nat.not_lt.1 ‹_›]

section

variable {fs fs' : Files} {r s : Route}

/-- Paths lead where they led. -/
theorem SameBut.locate_eq_ok_iff (h : SameBut r fs fs') (path : Bytes) :
    fs'.locate path = .ok s ↔ fs.locate path = .ok s := by
  have hstep (r' : Route) (name : Bytes) (s : Route) :
      fs'.step r' name = .ok s ↔ fs.step r' name = .ok s := by
    rw [step_eq_ok_iff, step_eq_ok_iff, h.folder]
  have hsteps (names : List Bytes) (r' : Route) :
      names.foldlM fs'.step r' = .ok s ↔ names.foldlM fs.step r' = .ok s := by
    induction names generalizing r' with
    | nil => rfl
    | cons name names ih =>
      rw [List.foldlM_cons, List.foldlM_cons]
      cases hname : fs.step r' name with
      | ok r'' =>
        rw [(hstep r' name r'').2 hname]
        exact ih r''
      | error e =>
        cases hname' : fs'.step r' name with
        | ok r'' => cases hname.symm.trans ((hstep r' name r'').1 hname')
        | error e' => exact ⟨nofun, nofun⟩
  rw [locate, locate, h.cwd]
  split_ifs <;> first
    | exact hsteps _ _
    | rfl

/-- A file can be written wherever a path leads but at a folder. -/
theorem exists_write_iff {path : Bytes} (content : Bytes) :
    (∃ fs', fs.write path content = .ok fs') ↔ ∃ r, fs.locate path = .ok r ∧ ¬fs.IsFolder r := by
  rw [write]
  cases hr : fs.locate path with
  | error e => simp
  | ok r =>
    rcases hnode : fs.node? r with _ | _ | _ <;> simp [IsFolder, hnode]

theorem cwd_setTime (r : Route) (t : Int) : (fs.setTime r t).cwd = fs.cwd := by
  rw [setTime]
  split
  · rfl
  · split <;> rfl

theorem isFolder_setNode (hr : r ≠ []) {n : Node} (hn : fs.IsFolder r ↔ ∃ t, n = .folder t) :
    (fs.setNode r n).IsFolder s ↔ fs.IsFolder s := by
  by_cases hs : s = r
  · subst hs
    rw [hn, IsFolder, node?_setNode hr, if_pos rfl]
    simp only [Option.some.injEq]
  · rw [IsFolder, node?_setNode hr, if_neg hs, IsFolder]

theorem isFolder_setTime (r : Route) (t : Int) : (fs.setTime r t).IsFolder s ↔ fs.IsFolder s := by
  rw [setTime]
  split
  · rfl
  · next hroot =>
    have hr : r ≠ [] := mt List.isEmpty_iff.2 hroot
    split
    · next n hn =>
      refine isFolder_setNode hr ?_
      rw [IsFolder, node?_of_ne_nil hr, hn]
      cases n <;> simp [Node.withTime]
    · rfl

/-- Writing a file leaves all others as they are, and the folders. -/
theorem sameBut_of_write {path content : Bytes} {folder : Route} {name : Bytes} {t : Int}
    (hwrite : fs.write path content = .ok fs') (hr : fs.locate path = .ok (folder ++ [name]))
    (hfolder : fs.node? folder = some (.folder t)) : SameBut (folder ++ [name]) fs fs' := by
  have hne : folder ++ [name] ≠ [] := List.concat_ne_nil name folder
  have hfile (s : Route) (hs : s ≠ folder ++ [name]) : fs'.file? s = fs.file? s := by
    rw [file?_write hwrite hr hfolder, if_neg hs]
  simp only [write, hr] at hwrite
  split at hwrite
  · cases hwrite
  · next hnode =>
    cases hwrite
    refine ⟨rfl, fun s => isFolder_setNode hne ?_, hfile⟩
    simp [IsFolder, hnode]
  · next hnode =>
    cases hwrite
    refine ⟨cwd_setTime _ _, fun s => ?_, hfile⟩
    rw [create, isFolder_setNode hne, isFolder_setTime]
    rw [isFolder_setTime, IsFolder, hnode]
    simp

end

end Files

end CZero
