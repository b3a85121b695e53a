import CZero.Loader
import CZero.Proofs.Files
import CZero.Proofs.Program.Image
import Mathlib.Logic.Relation

/-!
# Images make no difference

A program can be loaded from an image beside its text. The images were written when the
text had been parsed, and the text may have been changed since, so what is loaded
depends on the whole history of the files. Still it is always the program of the text
as it is.

The invariant behind this is `Honest`: an image that holds a program stands beside a
text that gives the same program or is newer than the image. Every step of the files
keeps it: loading a text, which may write its image; changing a text, if it gets a time
later than that of its image; and spoiling an image. An image is used only if its text is
not newer, so then it holds the program of the text.
-/

namespace CZero

open CZero.Path (slash)

namespace Loader

/-- The extension of texts. -/
def sourceExtension : Bytes := utf8 ".bc0"

/-- The route of a text. -/
def sourceAt (folder : Route) (name : Bytes) : Route :=
  folder ++ [name ++ sourceExtension]

/-- The route of the image of a text. -/
def imageAt (folder : Route) (name : Bytes) : Route :=
  folder ++ [name ++ imageExtension]

/-- A loader that has not loaded anything yet. -/
def new (fs : Files) (writesImages : Bool) (codec : Image.Codec) : Loader where
  files := fs
  writesImages := writesImages
  codec := codec

/-- The files after an attempt to load a program. -/
def filesAfter (path : Bytes) (l : Loader) : Files :=
  match load path l with
  | .ok _ l => l.files
  | .error _ l => l.files

end Loader

open Loader

/-- What happens to the files. -/
inductive Files.Step (codec : Image.Codec) : Files → Files → Prop
  /-- Time goes by, or the clock is set. -/
  | tick (fs : Files) (t : Int) : Step codec fs { fs with clock := t }
  /-- A text is loaded. -/
  | load (fs : Files) {path : Bytes} (writesImages : Bool)
      (hpath : Path.extension path = sourceExtension) :
      Step codec fs (filesAfter path (.new fs writesImages codec))
  /-- A text is changed, at a time later than that of its image. -/
  | edit {fs fs' : Files} {path text : Bytes} {folder : Route} {name : Bytes} {t : Int}
      (hpath : Path.extension path = sourceExtension)
      (hroute : fs.locate path = .ok (sourceAt folder name))
      (hwrite : fs.write path text = .ok fs')
      (hlater : ∀ content u, fs.file? (imageAt folder name) = some (content, u) → u < t) :
      Step codec fs (fs'.setTime (sourceAt folder name) t)
  /-- An image is overwritten by bytes that are none. -/
  | spoil {fs fs' : Files} {path bytes : Bytes} {e : Image.Error}
      (hpath : Path.extension path = imageExtension) (hbytes : codec.decode bytes = .error e)
      (hwrite : fs.write path bytes = .ok fs') : Step codec fs fs'

namespace Loader

/-- An image that holds a program stands beside a text that gives the same program or is
    newer. -/
def Honest (codec : Image.Codec) (fs : Files) : Prop :=
  ∀ folder name content t p, fs.file? (imageAt folder name) = some (content, t) →
    codec.decode content = .ok p → ∃ text u,
      fs.file? (sourceAt folder name) = some (text, u) ∧ (t < u ∨ Program.ofText text = .ok p)

/-! ## Routes of texts and images -/

theorem sourceAt_inj {folder folder' : Route} {name name' : Bytes} :
    sourceAt folder name = sourceAt folder' name' ↔ folder = folder' ∧ name = name' := by
  simp [sourceAt]

theorem imageAt_inj {folder folder' : Route} {name name' : Bytes} :
    imageAt folder name = imageAt folder' name' ↔ folder = folder' ∧ name = name' := by
  simp [imageAt]

theorem sourceAt_ne_imageAt (folder folder' : Route) (name name' : Bytes) :
    sourceAt folder name ≠ imageAt folder' name' := by
  intro h
  -- The names end in different bytes.
  have hname : name ++ sourceExtension = name' ++ imageExtension := by
    simpa [sourceAt, imageAt] using congrArg List.getLast? h
  have hlast := congrArg List.getLast? hname
  rw [List.getLast?_append_of_ne_nil _ (by decide), List.getLast?_append_of_ne_nil _ (by decide)]
    at hlast
  revert hlast
  decide

/-- The image of a text lies beside it. -/
theorem exists_routes (fs : Files) {path : Bytes} (hpath : Path.extension path = sourceExtension) :
    ∃ folder name,
      (∀ r, fs.locate path = .ok r →
        r = sourceAt folder name ∧ ∃ t, fs.node? folder = some (.folder t)) ∧
      ∀ r, fs.locate (imagePath path) = .ok r →
        r = imageAt folder name ∧ ∃ t, fs.node? folder = some (.folder t) := by
  obtain ⟨stem, hstem⟩ := Path.exists_eq_append_extension path
  rw [hpath] at hstem
  have himage : imagePath path = stem ++ imageExtension := by
    rw [imagePath, hstem, Path.withExtension_append (hstem ▸ hpath)]
  obtain ⟨folder, name, hbeside⟩ := fs.exists_beside stem
  refine ⟨folder, name, fun r hr => ?_, fun r hr => ?_⟩
  · exact hbeside sourceExtension (by decide) (by decide) r (hstem ▸ hr)
  · exact hbeside imageExtension (by decide) (by decide) r (himage ▸ hr)

/-! ## One load -/

variable {codec : Image.Codec}

/-- How a text can be loaded by a loader that has not loaded anything yet. -/
inductive Loads (codec : Image.Codec) (fs : Files) (w : Bool) (path : Bytes) :
    EStateM.Result Error Loader Program → Prop
  /-- From its image. -/
  | fresh {p : Program} {l : Loader} (himage : freshImage? codec fs path = some p)
      (hfiles : l.files = fs) : Loads codec fs w path (.ok p l)
  /-- Not at all, since it gives no program. -/
  | failed {e : SourceError} {l : Loader} (himage : freshImage? codec fs path = none)
      (hsource : fs.program path = .error e) (hfiles : l.files = fs) :
      Loads codec fs w path (.error (.source path e) l)
  /-- From the text, without writing an image. -/
  | parsed {p : Program} {l : Loader} (himage : freshImage? codec fs path = none)
      (hsource : fs.program path = .ok p) (hw : w = false) (hfiles : l.files = fs) :
      Loads codec fs w path (.ok p l)
  /-- From the text, whose image is written. -/
  | written {p : Program} {l : Loader} (himage : freshImage? codec fs path = none)
      (hsource : fs.program path = .ok p) (hw : w = true)
      (hwrite : fs.write (imagePath path) (codec.encode p) = .ok l.files) :
      Loads codec fs w path (.ok p l)
  /-- Not at all, since its image cannot be written. -/
  | unwritten {p : Program} {e : Files.Error} {l : Loader}
      (himage : freshImage? codec fs path = none) (hsource : fs.program path = .ok p)
      (hw : w = true) (hwrite : fs.write (imagePath path) (codec.encode p) = .error e) (hfiles : l.files = fs) :
      Loads codec fs w path (.error (.unwrittenImage (imagePath path) e) l)

/-- A text is served from its image if that may be used, and else it is parsed. -/
theorem load_new {fs : Files} {w : Bool} {path : Bytes}
    (hpath : Path.extension path ≠ imageExtension) :
    load path (.new fs w codec) = (freshImage? codec fs path).elim
      (loadText path >>= fun p => writeImage path p >>= fun _ => serve path p) (serve path)
      (.new fs w codec) := by
  have hext : (Path.extension path == imageExtension) = false := beq_eq_false_iff_ne.2 hpath
  have hget : (get : Load Loader) (.new fs w codec) = .ok (.new fs w codec) (.new fs w codec) :=
    rfl
  simp only [load, loadWith, bind, EStateM.bind, hget]
  simp only [new, List.lookup_nil, hext]
  cases freshImage? codec fs path <;> rfl

/-- Whatever is no image is loaded as a text. -/
theorem loads_of_ne_imageExtension (codec : Image.Codec) (fs : Files) (w : Bool) {path : Bytes}
    (hpath : Path.extension path ≠ imageExtension) :
    Loads codec fs w path (load path (.new fs w codec)) := by
  rw [load_new hpath]
  cases himage : freshImage? codec fs path with
  | some p => exact .fresh himage rfl
  | none =>
    rw [Option.elim_none]
    cases hsource : fs.program path with
    | error e =>
      have htext : loadText path (.new fs w codec) = .error (.source path e) (.new fs w codec) := by
        simp only [loadText, new, List.lookup_nil, hsource]
      simp only [bind, EStateM.bind, htext]
      exact .failed himage hsource rfl
    | ok p =>
      have htext : loadText path (.new fs w codec) =
          .ok p { Loader.new fs w codec with parsed := [(path, p)] } := by
        simp only [loadText, new, List.lookup_nil, hsource]
      simp only [bind, EStateM.bind, htext]
      cases w with
      | false => exact .parsed himage hsource rfl rfl
      | true =>
        cases hwrite : fs.write (imagePath path) (codec.encode p) with
        | error e =>
          simp only [writeImage, new, hwrite, if_true]
          exact .unwritten himage hsource rfl hwrite rfl
        | ok fs' =>
          simp only [writeImage, new, hwrite, if_true]
          exact .written himage hsource rfl hwrite

theorem loads_new (codec : Image.Codec) (fs : Files) (w : Bool) {path : Bytes}
    (hpath : Path.extension path = sourceExtension) :
    Loads codec fs w path (load path (.new fs w codec)) :=
  loads_of_ne_imageExtension codec fs w (hpath ▸ by decide)

/-- An image is used if it is not older than its text and holds a program. -/
theorem freshImage?_eq_some {fs : Files} {path : Bytes} {p : Program}
    (h : freshImage? codec fs path = some p) : ∃ t u content,
      fs.changed? (imagePath path) = some t ∧ fs.changed? path = some u ∧ u ≤ t ∧
      fs.read (imagePath path) = .ok content ∧ codec.decode content = .ok p := by
  rw [freshImage?] at h
  split at h
  · next hfresh =>
    rw [isFresh] at hfresh
    split at hfresh
    · next t u ht hu =>
      rw [readImage] at h
      cases hread : fs.read (imagePath path) with
      | error e => simp [hread, Except.toOption] at h
      | ok content =>
        cases hdecode : codec.decode content with
        | error e => simp [hread, hdecode, Except.toOption] at h
        | ok q =>
          simp only [hread, hdecode, Except.toOption, Option.some.injEq] at h
          exact ⟨t, u, content, ht, hu, of_decide_eq_true hfresh, rfl, h ▸ hdecode⟩
    · cases hfresh
  · cases h

theorem exists_text_of_program {fs : Files} {path : Bytes} {p : Program}
    (h : fs.program path = .ok p) :
    ∃ text, fs.read path = .ok text ∧ Program.ofText text = .ok p := by
  rw [Files.program] at h
  split at h
  · cases h
  · next text hread =>
    split at h
    · cases h
    · next p' htext =>
      cases h
      exact ⟨text, hread, htext⟩

theorem program_of_read {fs : Files} {path text : Bytes} {p : Program}
    (hread : fs.read path = .ok text) (htext : Program.ofText text = .ok p) :
    fs.program path = .ok p := by
  simp only [Files.program, hread, htext]

/-- A program that was read from a text is read back from its image. -/
theorem decode_encode_of_ofText (hcodec : codec.RoundTrips) {text : Bytes} {p : Program}
    (h : Program.ofText text = .ok p) : codec.decode (codec.encode p) = .ok p := by
  rw [Program.ofText] at h
  split at h
  · cases h
  · next bs hbs =>
    split at h
    · cases h
    · next p' hread =>
      cases h
      refine hcodec.decode_encode ⟨bs, ?_⟩
      rw [(Binary.read_eq_ok_iff.1 hread).1, hread]

/-! ## Every step -/

section

variable {fs fs' : Files} {folder : Route} {name : Bytes} {t : Int}

theorem Honest.of_file?_eq (h : Honest codec fs) (hfile : ∀ r, fs'.file? r = fs.file? r) :
    Honest codec fs' := by
  intro folder name content t p himage hdecode
  rw [hfile] at himage ⊢
  exact h folder name content t p himage hdecode

/-- A new image must be honest itself. -/
theorem Honest.set_image {content : Bytes} (h : Honest codec fs)
    (hfile : ∀ r, fs'.file? r = if r = imageAt folder name then some (content, t) else fs.file? r)
    (hnew : ∀ p, codec.decode content = .ok p → ∃ text u,
      fs.file? (sourceAt folder name) = some (text, u) ∧ (t < u ∨ Program.ofText text = .ok p)) :
    Honest codec fs' := by
  intro folder' name' content' t' p himage hdecode
  rw [hfile, if_neg (sourceAt_ne_imageAt _ _ _ _)]
  rw [hfile] at himage
  split at himage
  · next heq =>
    obtain ⟨rfl, rfl⟩ := imageAt_inj.1 heq
    cases himage
    exact hnew p hdecode
  · exact h folder' name' content' t' p himage hdecode

/-- A new text is newer than its image. -/
theorem Honest.set_source {text : Bytes} (h : Honest codec fs)
    (hfile : ∀ r, fs'.file? r = if r = sourceAt folder name then some (text, t) else fs.file? r)
    (hlater : ∀ content u, fs.file? (imageAt folder name) = some (content, u) → u < t) :
    Honest codec fs' := by
  intro folder' name' content' t' p himage hdecode
  rw [hfile, if_neg (sourceAt_ne_imageAt _ _ _ _).symm] at himage
  rw [hfile]
  split
  · next heq =>
    obtain ⟨rfl, rfl⟩ := sourceAt_inj.1 heq
    exact ⟨text, t, rfl, .inl (hlater content' t' himage)⟩
  · exact h folder' name' content' t' p himage hdecode

/-- Loading a text keeps the images honest. -/
theorem Honest.filesAfter (hcodec : codec.RoundTrips) (h : Honest codec fs) {path : Bytes}
    (hpath : Path.extension path = sourceExtension) (w : Bool) :
    Honest codec (filesAfter path (.new fs w codec)) := by
  have hloads := loads_new codec fs w hpath
  rw [Loader.filesAfter]
  generalize load path (.new fs w codec) = r at hloads
  cases hloads with
  | fresh _ hfiles | failed _ _ hfiles | parsed _ _ _ hfiles | unwritten _ _ _ _ hfiles =>
    -- Nothing was written.
    simpa only [hfiles] using h
  | @written p l himage hsource hw hwrite =>
    obtain ⟨folder, name, hsourceAt, himageAt⟩ := exists_routes fs hpath
    obtain ⟨r, hr⟩ := Files.exists_locate_of_write hwrite
    obtain ⟨rfl, t, hfolder⟩ := himageAt r hr
    refine h.set_image (Files.file?_write hwrite hr hfolder) fun q hq => ?_
    -- The image that was written holds the program of the text.
    obtain ⟨text, hread, htext⟩ := exists_text_of_program hsource
    obtain ⟨r', u, hr', hfile⟩ := Files.read_eq_ok_iff.1 hread
    obtain ⟨rfl, -⟩ := hsourceAt r' hr'
    rw [decode_encode_of_ofText hcodec htext] at hq
    cases hq
    exact ⟨text, u, hfile, .inr htext⟩

theorem honest_step (hcodec : codec.RoundTrips) (h : Honest codec fs)
    (hstep : Files.Step codec fs fs') : Honest codec fs' := by
  cases hstep with
  | tick t => exact h.of_file?_eq fun r => rfl
  | load w hpath => exact h.filesAfter hcodec hpath w
  | @edit fs₁ path text folder name t hpath hroute hwrite hlater =>
    obtain ⟨folder', name', hsourceAt, -⟩ := exists_routes fs hpath
    obtain ⟨heq, u, hfolder⟩ := hsourceAt _ hroute
    obtain ⟨rfl, rfl⟩ := sourceAt_inj.1 heq
    have hwritten (r : Route) : fs₁.file? r =
        if r = sourceAt folder name then some (text, fs.clock) else fs.file? r :=
      Files.file?_write hwrite hroute hfolder r
    have hfile (r : Route) : (fs₁.setTime (sourceAt folder name) t).file? r =
        if r = sourceAt folder name then some (text, t) else fs.file? r := by
      rw [Files.file?_setTime, hwritten]
      split_ifs with hr
      · rfl
      · rfl
    exact h.set_source hfile hlater
  | @spoil _ path bytes e hpath hbytes hwrite =>
    obtain ⟨stem, hstem⟩ := Path.exists_eq_append_extension path
    rw [hpath] at hstem
    obtain ⟨folder, name, hbeside⟩ := fs.exists_beside stem
    obtain ⟨r, hr⟩ := Files.exists_locate_of_write hwrite
    obtain ⟨rfl, t, hfolder⟩ := hbeside imageExtension (by decide) (by decide) r (hstem ▸ hr)
    refine h.set_image (Files.file?_write hwrite hr hfolder) fun p hp => ?_
    rw [hbytes] at hp
    cases hp

end

theorem honest_steps (hcodec : codec.RoundTrips) {fs₀ fs : Files} (h : Honest codec fs₀)
    (hsteps : Relation.ReflTransGen (Files.Step codec) fs₀ fs) : Honest codec fs := by
  induction hsteps with
  | refl => exact h
  | tail _ hstep ih => exact honest_step hcodec ih hstep

/-- An image that may be used holds the program of its text. -/
theorem program_of_freshImage? {fs : Files} (h : Honest codec fs) {path : Bytes} {p : Program}
    (hpath : Path.extension path = sourceExtension) (himage : freshImage? codec fs path = some p) :
    fs.program path = .ok p := by
  obtain ⟨folder, name, hsourceAt, himageAt⟩ := exists_routes fs hpath
  obtain ⟨t, u, content, ht, hu, hle, hcontent, hdecode⟩ := freshImage?_eq_some himage
  obtain ⟨r', t', hr', himageFile⟩ := Files.read_eq_ok_iff.1 hcontent
  obtain ⟨r, hr⟩ := Files.exists_locate_of_changed? hu
  obtain ⟨rfl, -⟩ := himageAt r' hr'
  obtain ⟨rfl, -⟩ := hsourceAt r hr
  obtain ⟨text, u', hsourceFile, hsame⟩ := h folder name content t' p himageFile hdecode
  -- The image is as old as it seems, and so is the text.
  obtain rfl : t' = t := Option.some.inj ((Files.changed?_of_file? hr' himageFile).symm.trans ht)
  obtain rfl : u' = u := Option.some.inj ((Files.changed?_of_file? hr hsourceFile).symm.trans hu)
  rcases hsame with hlt | htext
  · exact absurd hle (Int.not_le.2 hlt)
  · exact program_of_read (Files.read_eq_ok_iff.2 ⟨_, u', hr, hsourceFile⟩) htext

/-- Loading makes nothing of images, if the codec gives back what it was given, whatever has
    happened to the files since there were none. A text that gives a program is loaded as that
    program, unless its image has to be written and cannot be; a text that gives none, or is
    missing, is refused for the reason that it has itself, and then the files are left as they
    are. -/
theorem images_transparent (hcodec : codec.RoundTrips) {fs₀ fs : Files}
    (hclean : ∀ folder name, fs₀.file? (imageAt folder name) = none)
    (hsteps : Relation.ReflTransGen (Files.Step codec) fs₀ fs) {path : Bytes}
    (hpath : Path.extension path = sourceExtension) (w : Bool) :
    (∀ p, fs.program path = .ok p →
      (∃ l, load path (.new fs w codec) = .ok p l) ∨
        ∃ e l, w = true ∧ fs.write (imagePath path) (codec.encode p) = .error e ∧
          load path (.new fs w codec) = .error (.unwrittenImage (imagePath path) e) l) ∧
    ∀ e, fs.program path = .error e →
      ∃ l, load path (.new fs w codec) = .error (.source path e) l ∧ l.files = fs := by
  have hhonest : Honest codec fs := by
    refine honest_steps hcodec (fun folder name content t p himage => ?_) hsteps
    rw [hclean] at himage
    cases himage
  have hloads := loads_new codec fs w hpath
  generalize load path (.new fs w codec) = r at hloads
  constructor
  · intro p hp
    cases hloads with
    | @fresh q l himage =>
      rw [program_of_freshImage? hhonest hpath himage] at hp
      cases hp
      exact .inl ⟨l, rfl⟩
    | @parsed q l _ hsource | @written q l _ hsource =>
      rw [hsource] at hp
      cases hp
      exact .inl ⟨l, rfl⟩
    | @failed e l _ hsource =>
      rw [hsource] at hp
      cases hp
    | @unwritten q e l _ hsource hw hwrite =>
      rw [hsource] at hp
      cases hp
      exact .inr ⟨e, l, hw, hwrite, rfl⟩
  · intro e he
    cases hloads with
    | @fresh q l himage =>
      rw [program_of_freshImage? hhonest hpath himage] at he
      cases he
    | @parsed q l _ hsource | @written q l _ hsource | @unwritten q e l _ hsource =>
      rw [hsource] at he
      cases he
    | @failed e l _ hsource hfiles =>
      rw [hsource] at he
      cases he
      exact ⟨l, rfl, hfiles⟩

/-- The text of a program, as the file `a.bc0`. -/
def oneText : Files where
  nodes := [(sourceAt [] (utf8 "a"), .file
    (utf8 "C0 C0 FF EE 00 09 00 00 00 00 00 01 00 00 00 00 00 03 10 00 B0 00 00") 0)]
  clock := 5

/-- These files when the program has been loaded and its image written. -/
def oneImage : Files :=
  filesAfter (utf8 "a.bc0") (.new oneText true Image.cbor)

/-- These files when the text has been emptied. -/
def emptied : Files :=
  (oneImage.setNode (sourceAt [] (utf8 "a")) (.file [] 5)).setTime (sourceAt [] (utf8 "a")) 6

theorem images_transparent_emptied :
    (oneImage.file? (imageAt [] (utf8 "a"))).isSome ∧
      ∃ e l, emptied.program (utf8 "a.bc0") = .error e ∧
        load (utf8 "a.bc0") (.new emptied true Image.cbor) = .error (.source (utf8 "a.bc0") e) l ∧
        l.files = emptied := by
  have hpath : Path.extension (utf8 "a.bc0") = sourceExtension := by decide
  have hclean (folder : Route) (name : Bytes) : oneText.file? (imageAt folder name) = none := by
    have hne : imageAt folder name ≠ [] := List.concat_ne_nil _ folder
    rw [Files.file?, Files.node?_of_ne_nil hne, oneText,
      Files.lookup_cons_of_ne (sourceAt_ne_imageAt [] folder (utf8 "a") name).symm]
    rfl
  have himage : (oneImage.file? (imageAt [] (utf8 "a"))).map Prod.snd = some 5 := by
    decide +kernel
  have hload : Files.Step Image.cbor oneText oneImage := .load oneText true hpath
  have hedit : Files.Step Image.cbor oneImage emptied := by
    refine .edit hpath rfl rfl fun content u hu => ?_
    rw [hu] at himage
    cases himage
    decide
  refine ⟨by rw [← Option.isSome_map, himage]; rfl, ?_⟩
  have hbad : (emptied.program (utf8 "a.bc0")).isOk = false := by
    decide +kernel
  cases hprogram : emptied.program (utf8 "a.bc0") with
  | ok p =>
    rw [hprogram] at hbad
    cases hbad
  | error e =>
    have hsteps := (Relation.ReflTransGen.single hload).tail hedit
    obtain ⟨l, hl, hfiles⟩ :=
      (images_transparent Image.cbor_roundTrips hclean hsteps hpath true).2 e hprogram
    exact ⟨e, l, rfl, hl, hfiles⟩

end Loader

end CZero
