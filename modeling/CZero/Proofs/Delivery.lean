import CZero.Proofs.Loader
import CZero.Proofs.Run

/-!
# Only well-formed programs are loaded

A loader has four ways to come by a program: it parses a text, it reads an image, it has
parsed the text before, or it has served the path before. The first two check what they
read, whatever is in the files; so all programs that the loader keeps are well-formed
(`Sound`), and the other two need no check. `Delivers` says how an attempt to load can
end, and everything that is kept over a history of attempts follows from it.

A machine relies on what was checked. A program that is well-formed has a main function,
and a call of one of its functions is never refused for want of room for its arguments
(`call_refused`).
-/

namespace CZero

open CZero.Action

/-! ## What is checked -/

theorem Program.wellFormed_of_ofText {text : Bytes} {p : Program} (h : ofText text = .ok p) :
    p.WellFormed := by
  rw [ofText] at h
  split at h
  · cases h
  · split at h
    · cases h
    · next p' hread =>
      cases h
      obtain ⟨-, -, -, hwell⟩ := Binary.read_eq_ok_iff.1 hread
      exact hwell

theorem Image.Codec.wellFormed_of_decode {codec : Codec} {bs : Bytes} {p : Program}
    (h : codec.decode bs = .ok p) : p.WellFormed := by
  rw [decode] at h
  split at h
  · cases h
  · split at h
    · cases h
    · next hdefect =>
      cases h
      exact Program.defect?_eq_none_iff.1 hdefect

/-! ## Loaders -/

namespace Loader

theorem wellFormed_of_readImage {codec : Image.Codec} {fs : Files} {path : Bytes} {p : Program}
    (h : readImage codec fs path = .ok p) : p.WellFormed := by
  rw [readImage] at h
  split at h
  · cases h
  · split at h
    · cases h
    · next hdecode =>
      cases h
      exact Image.Codec.wellFormed_of_decode hdecode

/-- All programs on the shelf are well-formed. -/
def Checked (shelf : Shelf) : Prop :=
  ∀ path p, shelf.lookup path = some p → p.WellFormed

theorem checked_nil : Checked [] := by
  rintro path p ⟨⟩

theorem Checked.cons {shelf : Shelf} {p : Program} (h : Checked shelf) (path : Bytes)
    (hp : p.WellFormed) : Checked ((path, p) :: shelf) := by
  intro path' p' hp'
  rw [List.lookup_cons] at hp'
  split at hp'
  · cases hp'
    exact hp
  · exact h path' p' hp'

/-- All programs that the loader keeps are well-formed. -/
structure Sound (l : Loader) : Prop where
  parsed : Checked l.parsed
  served : Checked l.served

/-- How an attempt to load a path can end. -/
inductive Delivers (l : Loader) (path : Bytes) : EStateM.Result Error Loader Program → Prop
  /-- The path was served before. -/
  | again {p : Program} (hserved : l.served.lookup path = some p) : Delivers l path (.ok p l)
  /-- The path is served now. -/
  | first {p : Program} {l' : Loader} (hnew : l.served.lookup path = none) (hp : p.WellFormed)
      (hparsed : Checked l'.parsed) (hserved : l'.served = (path, p) :: l.served) :
      Delivers l path (.ok p l')
  /-- Nothing is served. -/
  | failed {e : Error} {l' : Loader} (hparsed : Checked l'.parsed)
      (hserved : l'.served = l.served) : Delivers l path (.error e l')

variable {l l' : Loader} {path : Bytes} {p : Program}

/-- A path that was served is served again, from memory. -/
theorem load_of_served (h : l.served.lookup path = some p) : load path l = .ok p l := by
  have hget : (get : Load Loader) l = .ok l l := rfl
  simp only [load, loadWith, bind, EStateM.bind, hget, h]
  rfl

/-- A text is parsed, or it was parsed before; nothing is served. -/
theorem loadText_cases (h : Checked l.parsed) (path : Bytes) :
    (∃ p l', loadText path l = .ok p l' ∧ p.WellFormed ∧ Checked l'.parsed ∧
      l'.served = l.served) ∨ ∃ e, loadText path l = .error e l := by
  rw [loadText]
  cases hlookup : l.parsed.lookup path with
  | some p => exact .inl ⟨p, l, rfl, h path p hlookup, h, rfl⟩
  | none =>
    cases hprogram : l.files.program path with
    | error e => exact .inr ⟨_, rfl⟩
    | ok p =>
      obtain ⟨text, -, htext⟩ := exists_text_of_program hprogram
      have hp := Program.wellFormed_of_ofText htext
      exact .inl ⟨p, _, rfl, hp, h.cons path hp, rfl⟩

/-- Writing an image touches neither shelf. -/
theorem writeImage_cases (path : Bytes) (p : Program) (l : Loader) :
    ∃ l', l'.parsed = l.parsed ∧ l'.served = l.served ∧
      (writeImage path p l = .ok () l' ∨ ∃ e, writeImage path p l = .error e l') := by
  rw [writeImage]
  split
  · split
    · exact ⟨l, rfl, rfl, .inr ⟨_, rfl⟩⟩
    · next files _ => exact ⟨{ l with files }, rfl, rfl, .inl rfl⟩
  · exact ⟨l, rfl, rfl, .inl rfl⟩

theorem parse_delivers (h : Checked l.parsed) (hnew : l.served.lookup path = none) :
    Delivers l path ((do
      let p ← loadText path
      writeImage path p
      serve path p : Load Program) l) := by
  simp only [bind, EStateM.bind]
  rcases loadText_cases h path with ⟨p, l₁, htext, hp, hparsed, hserved⟩ | ⟨e, htext⟩
  · obtain ⟨l₂, hparsed', hserved', hwrite | ⟨e, hwrite⟩⟩ := writeImage_cases path p l₁
    · simp only [htext, hwrite]
      exact .first hnew hp (hparsed' ▸ hparsed) (by rw [← hserved, ← hserved'])
    · simp only [htext, hwrite]
      exact .failed (hparsed' ▸ hparsed) (hserved'.trans hserved)
  · simp only [htext]
    exact .failed h rfl

theorem load_delivers (h : Checked l.parsed) (path : Bytes) : Delivers l path (load path l) := by
  cases hlookup : l.served.lookup path with
  | some p =>
    rw [load_of_served hlookup]
    exact .again hlookup
  | none =>
    have hget : (get : Load Loader) l = .ok l l := rfl
    simp only [load, loadWith, bind, EStateM.bind, hget, hlookup]
    split
    · -- The path is that of an image.
      cases himage : readImage l.codec l.files path with
      | error e => exact .failed h rfl
      | ok p => exact .first hlookup (wellFormed_of_readImage himage) h rfl
    cases hfresh : freshImage? l.codec l.files path with
    | some p =>
      obtain ⟨-, -, content, -, -, -, -, hdecode⟩ := freshImage?_eq_some hfresh
      exact .first hlookup (Image.Codec.wellFormed_of_decode hdecode) h rfl
    | none => exact parse_delivers h hlookup

/-! ## Histories -/

/-- The loader after an attempt, whether it succeeded or not. -/
def final {α : Type} (x : Load α) (l : Loader) : Loader :=
  match x l with
  | .ok _ l => l
  | .error _ l => l

/-- What happens to a loader. -/
inductive Step : Loader → Loader → Prop
  /-- A program is asked for. -/
  | load (l : Loader) (path : Bytes) : Step l (final (load path) l)
  /-- The program of a text is asked for, past the images. -/
  | loadText (l : Loader) (path : Bytes) : Step l (final (loadText path) l)
  /-- The files become any others, and so does the choice to write images. -/
  | change (l : Loader) (files : Files) (writesImages : Bool) :
      Step l { l with files, writesImages }

/-- What a step does to the shelves: texts may have been parsed, and one more path may be
    served. -/
theorem step_cases (h : Checked l.parsed) (hstep : Step l l') : Checked l'.parsed ∧
    (l'.served = l.served ∨ ∃ path p, l.served.lookup path = none ∧ p.WellFormed ∧
      l'.served = (path, p) :: l.served) := by
  cases hstep with
  | load path =>
    have hd := load_delivers h path
    rw [final]
    generalize Loader.load path l = r at hd
    cases hd with
    | again _ => exact ⟨h, .inl rfl⟩
    | first hnew hp hparsed hserved => exact ⟨hparsed, .inr ⟨path, _, hnew, hp, hserved⟩⟩
    | failed hparsed hserved => exact ⟨hparsed, .inl hserved⟩
  | loadText path =>
    rw [final]
    rcases loadText_cases h path with ⟨p, l₁, htext, -, hparsed, hserved⟩ | ⟨e, htext⟩
    · rw [htext]
      exact ⟨hparsed, .inl hserved⟩
    · rw [htext]
      exact ⟨h, .inl rfl⟩
  | change files writesImages => exact ⟨h, .inl rfl⟩

theorem Sound.step (h : l.Sound) (hstep : Step l l') : l'.Sound := by
  obtain ⟨hparsed, hsame | ⟨path, p, -, hp, hcons⟩⟩ := step_cases h.parsed hstep
  · exact ⟨hparsed, hsame ▸ h.served⟩
  · exact ⟨hparsed, hcons ▸ h.served.cons path hp⟩

theorem sound_new (fs : Files) (writesImages : Bool) (codec : Image.Codec) :
    (new fs writesImages codec).Sound :=
  ⟨checked_nil, checked_nil⟩

theorem Sound.steps (h : l.Sound) (hsteps : Relation.ReflTransGen Step l l') : l'.Sound := by
  induction hsteps with
  | refl => exact h
  | tail _ hstep ih => exact ih.step hstep

theorem lookup_cons_of_some {shelf : Shelf} {path path' : Bytes} {p p' : Program}
    (hnew : shelf.lookup path' = none) (h : shelf.lookup path = some p) :
    List.lookup path ((path', p') :: shelf) = some p := by
  have hne : (path == path') = false := by
    refine beq_eq_false_iff_ne.2 fun heq => ?_
    rw [heq, hnew] at h
    cases h
  rw [List.lookup_cons, hne]
  exact h

/-- What was served stays served. -/
theorem served_step (h : l.Sound) (hserved : l.served.lookup path = some p)
    (hstep : Step l l') : l'.served.lookup path = some p := by
  obtain ⟨-, hsame | ⟨path', p', hnew, -, hcons⟩⟩ := step_cases h.parsed hstep
  · exact hsame ▸ hserved
  · exact hcons ▸ lookup_cons_of_some hnew hserved

theorem served_steps (h : l.Sound) (hserved : l.served.lookup path = some p)
    (hsteps : Relation.ReflTransGen Step l l') : l'.served.lookup path = some p := by
  induction hsteps with
  | refl => exact hserved
  | tail hbefore hstep ih => exact served_step (h.steps hbefore) ih hstep

/-- A sound loader serves a well-formed program, and keeps it. -/
theorem Sound.of_load (h : l.Sound) (hload : load path l = .ok p l') :
    p.WellFormed ∧ l'.served.lookup path = some p := by
  have hd := load_delivers h.parsed path
  rw [hload] at hd
  cases hd with
  | again hserved => exact ⟨h.served path p hserved, hserved⟩
  | first _ hp _ hserved =>
    rw [hserved]
    exact ⟨hp, List.lookup_cons_self⟩

theorem Sound.served_of_error (h : l.Sound) {e : Error} (hload : load path l = .error e l') :
    l'.served = l.served := by
  have hd := load_delivers h.parsed path
  rw [hload] at hd
  cases hd with
  | failed _ hserved => exact hserved

end Loader

/-! ## Machines -/

namespace Frame

theorem popList_eq_error {acc : List Cell} {n : Nat} {f g : Frame} {e : Failure}
    (h : popList acc n f = .error e g) : e = .fault .stackUnderflow := by
  induction n generalizing acc f with
  | zero => cases h
  | succ n ih =>
    rcases bind_eq_error.1 h with hpop | ⟨c, f', -, hrest⟩
    · unfold pop at hpop
      split at hpop <;> cases hpop
      rfl
    · exact ih hrest

theorem popArgs_eq_error {n : Nat} {f g : Frame} {e : Failure} (h : popArgs n f = .error e g) :
    e = .fault .stackUnderflow :=
  popList_eq_error h

end Frame

namespace Machine

variable {m : Machine} {s t u : State} {e : Failure}

/-- Why a call of a function of a well-formed program can be refused. -/
theorem call_refused (hm : m.program.WellFormed) {index : Nat}
    (h : m.call index s = .error e t) :
    e = .fault (.functionIndex index) ∨ e = .fault (.callDepth m.maxCallDepth) ∨
      e = .fault .stackUnderflow := by
  simp only [call, fault_bind] at h
  split at h
  · cases h
    exact .inl rfl
  rename_i hindex
  rw [bind_of_ok (get_apply s)] at h
  split at h
  · cases h
    exact .inr (.inl rfl)
  have hlt : index < m.program.functionPool.size := by omega
  -- The function has room for its arguments, so they only have to be on the stack.
  have hroom : ¬m.program.functionPool[index].vars < m.program.functionPool[index].args :=
    UInt16.not_lt.2 (hm.2 _ (Array.getElem_mem_toList hlt))
  rw [fetch_of_lt hlt, bind_of_ok (ofResult_ok _ _), if_neg hroom] at h
  rcases bind_eq_error.1 h with hargs | ⟨args, u, -, ⟨⟩⟩
  obtain ⟨g, hg, -⟩ := State.onFrame_eq_error.1 hargs
  exact .inr (.inr (Frame.popArgs_eq_error hg))

/-- A step that makes such a call is refused for the same reasons. -/
theorem step_call_refused (hm : m.program.WellFormed) {index : UInt16}
    (hfetch : fetchInstr s = .ok (.call index) u) (h : m.step s = .error e t) :
    e = .fault (.functionIndex index.toNat) ∨ e = .fault (.callDepth m.maxCallDepth) ∨
      e = .fault .stackUnderflow := by
  rw [step, bind_of_ok hfetch] at h
  rcases bind_eq_error.1 h with hcall | ⟨-, t', -, ⟨⟩⟩
  exact call_refused hm hcall

/-- An execution of a well-formed program finds its main function. -/
theorem execute_ne_noMain (hm : m.program.WellFormed) {fuel : Nat} {r r' : Residue} {o : Outcome}
    (h : m.execute fuel r = some (o, r')) : o ≠ .noMain := by
  rcases execute_eq_some h with ⟨hnone, -, -⟩ | ⟨s, n, u, t, -, -, hend, -⟩
  · exact absurd (start?_eq_none_iff.1 hnone) hm.1
  · cases hend with
    | @returned c t _ => cases c <;> simp [returned]
    | @stopped e t _ => cases e <;> simp [stopped]

end Machine

namespace Loader

/-- A loader that has gone through any history of requests, over files that may have
    become any others at any time, delivers well-formed programs only, whatever codec it has.
    What it has served for a path it serves for it again, whatever happens, and a request
    that fails leaves what it serves from memory as it is. A machine for a program that was
    delivered, with any native functions and any limits, always finds the main function, and
    no call of a function fails for want of a variable for an argument. -/
theorem delivers_wellFormed {fs : Files} {writesImages : Bool} {codec : Image.Codec} {l : Loader}
    (hl : Relation.ReflTransGen Step (.new fs writesImages codec) l) (path : Bytes) :
    (∀ p l', load path l = .ok p l' →
      p.WellFormed ∧
      (∀ l'', Relation.ReflTransGen Step l' l'' → load path l'' = .ok p l'') ∧
      ∀ m : Machine, m.program = p →
        (∀ fuel r o r', m.execute fuel r = some (o, r') → o ≠ .noMain) ∧
        ∀ s u index e t, Machine.fetchInstr s = .ok (.call index) u → m.step s = .error e t →
          ∀ i count, e ≠ .fault (.localIndex i count)) ∧
    ∀ e l', load path l = .error e l' → l'.served = l.served := by
  have hsound : l.Sound := (sound_new fs writesImages codec).steps hl
  refine ⟨fun p l' hload => ?_, fun e l' hload => hsound.served_of_error hload⟩
  obtain ⟨hp, hserved⟩ := hsound.of_load hload
  refine ⟨hp, fun l'' hsteps => ?_, fun m hm => ⟨fun fuel r o r' h => ?_, ?_⟩⟩
  · have hsound' : l'.Sound := by
      have hstep := hsound.step (.load l path)
      rwa [final, hload] at hstep
    exact load_of_served (served_steps hsound' hserved hsteps)
  · exact Machine.execute_ne_noMain (hm ▸ hp) h
  · rintro s u index e t hfetch hstep i count rfl
    rcases Machine.step_call_refused (hm ▸ hp) hfetch hstep with h | h | h <;> cases h

/-- A loader of the one text, when a file that is not there has been asked for. -/
def refusedOnce : Loader :=
  final (load (utf8 "b.bc0")) (.new oneText true Image.cbor)

theorem delivers_wellFormed_refusedOnce :
    ∃ p l', load (utf8 "a.bc0") refusedOnce = .ok p l' ∧ p.WellFormed ∧
      load (utf8 "a.bc0") { l' with files := emptied } = .ok p { l' with files := emptied } := by
  have hreached : Relation.ReflTransGen Step (.new oneText true Image.cbor) refusedOnce :=
    .single (.load _ (utf8 "b.bc0"))
  have hempty : refusedOnce.served.length = 0 := by decide +kernel
  have hserves : (final (load (utf8 "a.bc0")) refusedOnce).served.length = 1 := by
    decide +kernel
  obtain ⟨hok, herror⟩ := delivers_wellFormed hreached (utf8 "a.bc0")
  cases hload : load (utf8 "a.bc0") refusedOnce with
  | error e l' =>
    rw [final, hload, herror e l' hload, hempty] at hserves
    cases hserves
  | ok p l' =>
    obtain ⟨hp, hagain, -⟩ := hok p l' hload
    exact ⟨p, l', rfl, hp, hagain _ (.single (.change l' emptied l'.writesImages))⟩

end Loader

end CZero
