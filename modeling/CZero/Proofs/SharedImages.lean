import CZero.Proofs.Loader

/-!
# Texts that share an image

The image of a text has the name of the text with another extension, whatever extension the
text has. So texts that differ only in their extension share one image (`SharesImage`), and
an image does not tell which of them it was made of. Once one of them has been loaded and
its image written, the other ones are served the program of the first
(`images_shared`). Texts with the extension of texts do not share images, and in general
the load of one text makes no difference to the next load of another one, unless they share
an image.
-/

namespace CZero

open CZero.Path (slash dot)

namespace Path

theorem extension_append_imageExtension (stem : Bytes) :
    extension (stem ++ Loader.imageExtension) = Loader.imageExtension := by
  have hreverse : (stem ++ Loader.imageExtension).reverse =
      0x63 :: 0x30 :: 0x63 :: 0x62 :: dot :: stem.reverse := by
    rw [List.reverse_append]
    rfl
  rw [extension, hreverse]
  simp only [List.takeWhile_cons]
  rfl

end Path

namespace Loader

open Files

variable {fs fs' : Files} {p q : Bytes} {r s : Route} {program : Program} {w : Bool}
variable {codec : Image.Codec}

/-- The image of a file lies beside it. -/
theorem exists_imageAt (fs : Files) (path : Bytes) : ∃ folder name, ∀ r,
    fs.locate (imagePath path) = .ok r →
      r = imageAt folder name ∧ ∃ t, fs.node? folder = some (.folder t) := by
  obtain ⟨stem, hstem⟩ := Path.exists_eq_append_extension path
  have himage : imagePath path = stem ++ imageExtension := by
    rw [imagePath, hstem, Path.withExtension_append (hstem ▸ rfl)]
  obtain ⟨folder, name, hbeside⟩ := fs.exists_beside stem
  exact ⟨folder, name, fun r hr => hbeside imageExtension (by decide) (by decide) r (himage ▸ hr)⟩

/-- A path without the extension of images does not lead to one. -/
theorem ne_imageAt_of_locate (htree : fs.IsTree) (hq : Path.extension q ≠ imageExtension)
    (hs : fs.locate q = .ok s) {folder : Route} {name : Bytes}
    (himage : ¬fs.IsFolder (imageAt folder name)) : s ≠ imageAt folder name := by
  rintro rfl
  obtain ⟨folders, last, front, hnames, hpath⟩ := Path.exists_names_eq q
  have hsteps := locate_eq_ok hs
  rw [hnames, List.foldlM_append] at hsteps
  cases hfolder : folders.foldlM fs.step (if Path.isAbsolute q then [] else fs.cwd) with
  | error e =>
    rw [hfolder] at hsteps
    cases hsteps
  | ok r =>
    have hlast : fs.step r last = .ok (imageAt folder name) := by
      rw [hfolder] at hsteps
      change List.foldlM fs.step r [last] = _ at hsteps
      simpa only [List.foldlM_cons, List.foldlM_nil, bind_pure] using hsteps
    obtain ⟨hr, -, henter⟩ := step_eq_ok_iff.1 hlast
    rw [Path.enter] at henter
    split_ifs at henter
    · exact himage (henter ▸ hr)
    · exact himage (henter ▸ htree.dropLast hr)
    · -- The last name of the path is that of the image.
      obtain ⟨-, hlast⟩ := List.append_inj' henter rfl
      rw [List.singleton_inj.1 hlast, ← List.append_assoc] at hpath
      exact hq (hpath ▸ Path.extension_append_imageExtension _)

/-! ## What a load gives -/

/-- What a new loader gives for a path: a program, unless it fails. -/
def loaded? (codec : Image.Codec) (path : Bytes) (w : Bool) (fs : Files) : Option Program :=
  match load path (.new fs w codec) with
  | .ok p _ => some p
  | .error .. => none

/-- The path leads to no folder. -/
def NoFolder (fs : Files) (path : Bytes) : Prop :=
  ∀ r, fs.locate path = .ok r → ¬fs.IsFolder r

theorem noFolder_of_file? {content : Bytes} {t : Int} (hs : fs.locate q = .ok s)
    (hfile : fs.file? s = some (content, t)) : NoFolder fs q := by
  intro r hr
  obtain rfl : s = r := Except.ok.inj (hs.symm.trans hr)
  exact not_isFolder_of_file? hfile

theorem file?_eq_some_of_node? {n : Node} (hn : fs.node? s = some n) (hs : ¬fs.IsFolder s) :
    ∃ content, fs.file? s = some (content, n.changed) := by
  cases n with
  | file content t => exact ⟨content, file?_eq_some_iff.2 hn⟩
  | folder t => exact absurd ⟨t, hn⟩ hs

/-- The image of a text is used if both are there, the image is not older, and it holds a
    program. -/
theorem freshImage?_eq_some_iff (hq : NoFolder fs q) : freshImage? codec fs q = some program ↔
    ∃ i s image t text u, fs.locate (imagePath q) = .ok i ∧ fs.locate q = .ok s ∧
      fs.file? i = some (image, t) ∧ fs.file? s = some (text, u) ∧ u ≤ t ∧
      codec.decode image = .ok program := by
  constructor
  · intro h
    obtain ⟨t, u, image, ht, hu, hle, hread, hdecode⟩ := freshImage?_eq_some h
    obtain ⟨i, t', hi, himage⟩ := read_eq_ok_iff.1 hread
    obtain rfl : t' = t := Option.some.inj ((changed?_of_file? hi himage).symm.trans ht)
    obtain ⟨s, hs⟩ := exists_locate_of_changed? hu
    rw [changed?] at hu
    split at hu
    · next n hn =>
      cases hu
      obtain ⟨s', hs', hn⟩ := find_eq_ok_iff.1 hn
      obtain ⟨text, htext⟩ := file?_eq_some_of_node? hn (hq s' hs')
      exact ⟨i, s', image, t', text, n.changed, hi, hs', himage, htext, hle, hdecode⟩
    · cases hu
  · rintro ⟨i, s, image, t, text, u, hi, hs, himage, htext, hle, hdecode⟩
    rw [freshImage?, isFresh, changed?_of_file? hi himage, changed?_of_file? hs htext, if_pos]
    · rw [readImage, read_eq_ok_iff.2 ⟨i, t, hi, himage⟩]
      simp only [hdecode, Except.toOption]
    · exact decide_eq_true hle

theorem program_eq_ok_iff : fs.program q = .ok program ↔
    ∃ s text u, fs.locate q = .ok s ∧ fs.file? s = some (text, u) ∧
      Program.ofText text = .ok program := by
  constructor
  · intro h
    obtain ⟨text, hread, htext⟩ := exists_text_of_program h
    obtain ⟨s, u, hs, hfile⟩ := read_eq_ok_iff.1 hread
    exact ⟨s, text, u, hs, hfile, htext⟩
  · rintro ⟨s, text, u, hs, hfile, htext⟩
    exact program_of_read (read_eq_ok_iff.2 ⟨s, u, hs, hfile⟩) htext

/-- A path is served the program of its image if that may be used, and else that of its text,
    if its image need not be written or can be. -/
theorem loaded?_eq_some_iff (hq : Path.extension q ≠ imageExtension) :
    loaded? codec q w fs = some program ↔ freshImage? codec fs q = some program ∨
      freshImage? codec fs q = none ∧ fs.program q = .ok program ∧
        (w = true → ∃ r, fs.locate (imagePath q) = .ok r ∧ ¬fs.IsFolder r) := by
  have hloads := loads_of_ne_imageExtension codec fs w hq
  rw [loaded?]
  generalize load q (.new fs w codec) = r at hloads
  simp only [← exists_write_iff (codec.encode program)]
  cases hloads with
  | fresh himage _ => simp [himage]
  | failed himage hsource _ => simp [himage, hsource]
  | parsed himage hsource hw _ => simp [himage, hsource, hw]
  | written himage hsource hw hwrite =>
    rw [himage, hsource]
    constructor
    · rintro ⟨⟩
      exact .inr ⟨rfl, rfl, fun _ => ⟨_, hwrite⟩⟩
    · rintro (⟨⟨⟩⟩ | ⟨-, ⟨⟩, -⟩)
      rfl
  | unwritten himage hsource hw hwrite _ =>
    rw [himage, hsource]
    refine ⟨nofun, ?_⟩
    rintro (⟨⟨⟩⟩ | ⟨-, ⟨⟩, hwritten⟩)
    obtain ⟨fs', hfs'⟩ := hwritten hw
    cases hwrite.symm.trans hfs'

/-! ## Loading one text after another -/

/-- The paths lead to two texts that have one image. -/
structure SharesImage (fs : Files) (p q : Bytes) : Prop where
  image : ∃ i, fs.locate (imagePath p) = .ok i ∧ fs.locate (imagePath q) = .ok i
  texts : ∃ r s, fs.locate p = .ok r ∧ fs.locate q = .ok s ∧ r ≠ s

/-- Texts with the extension of texts share no image. -/
theorem not_sharesImage (hp : Path.extension p = sourceExtension)
    (hq : Path.extension q = sourceExtension) : ¬SharesImage fs p q := by
  rintro ⟨⟨i, hpi, hqi⟩, r, s, hr, hs, hne⟩
  obtain ⟨folder, name, hsource, himage⟩ := exists_routes fs hp
  obtain ⟨folder', name', hsource', himage'⟩ := exists_routes fs hq
  obtain ⟨rfl, -⟩ := himage i hpi
  obtain ⟨heq, -⟩ := himage' _ hqi
  obtain ⟨rfl, rfl⟩ := imageAt_inj.1 heq
  exact hne ((hsource r hr).1.trans (hsource' s hs).1.symm)

/-- A new loader that writes images makes the image of the text, which gives the program. -/
structure WritesImage (codec : Image.Codec) (fs : Files) (p : Bytes) (program : Program)
    (fs' : Files) : Prop where
  stale : freshImage? codec fs p = none
  source : fs.program p = .ok program
  write : fs.write (imagePath p) (codec.encode program) = .ok fs'

/-- A load writes an image, or it leaves the files as they are. -/
theorem filesAfter_cases (codec : Image.Codec) (fs : Files)
    (hp : Path.extension p ≠ imageExtension) :
    filesAfter p (.new fs true codec) = fs ∨
      ∃ program, WritesImage codec fs p program (filesAfter p (.new fs true codec)) := by
  have hloads := loads_of_ne_imageExtension codec fs true hp
  rw [filesAfter]
  generalize load p (.new fs true codec) = r at hloads
  cases hloads with
  | fresh _ hfiles | failed _ _ hfiles | parsed _ _ _ hfiles | unwritten _ _ _ _ hfiles =>
    exact .inl hfiles
  | @written program l himage hsource _ hwrite => exact .inr ⟨program, himage, hsource, hwrite⟩

/-- What is there when an image has been written. -/
structure Imaged (codec : Image.Codec) (fs : Files) (p : Bytes) (program : Program)
    (fs' : Files) (i r : Route) : Prop where
  image : fs.locate (imagePath p) = .ok i
  text : fs.locate p = .ok r
  free : ¬fs.IsFolder i
  same : SameBut i fs fs'
  holds : fs'.file? i = some (codec.encode program, fs.clock)
  apart : ∀ {q s}, Path.extension q ≠ imageExtension → fs.locate q = .ok s → s ≠ i
  decodes : codec.decode (codec.encode program) = .ok program

theorem WritesImage.imaged (hcodec : codec.RoundTrips) (h : WritesImage codec fs p program fs')
    (htree : fs.IsTree) : ∃ i r, Imaged codec fs p program fs' i r := by
  obtain ⟨i, hi, hfree⟩ := (exists_write_iff _).1 ⟨fs', h.write⟩
  obtain ⟨r, text, u, hr, -, htext⟩ := program_eq_ok_iff.1 h.source
  obtain ⟨folder, name, himage⟩ := exists_imageAt fs p
  obtain ⟨rfl, t, hfolder⟩ := himage i hi
  refine ⟨_, r, hi, hr, hfree, sameBut_of_write h.write hi hfolder, ?_,
    fun hq hs => ne_imageAt_of_locate htree hq hs hfree, decode_encode_of_ofText hcodec htext⟩
  rw [imageAt, file?_write h.write hi hfolder, if_pos rfl]

/-- The path leads neither to `i` nor to a folder, and its image is not at `i`. -/
structure Avoids (fs : Files) (i : Route) (q : Bytes) : Prop where
  noFolder : NoFolder fs q
  text : ∀ s, fs.locate q = .ok s → s ≠ i
  image : ∀ s r, fs.locate q = .ok s → fs.locate (imagePath q) = .ok r → r ≠ i

section

variable {i : Route}

theorem Avoids.sameBut (ha : Avoids fs i q) (h : SameBut i fs fs') : Avoids fs' i q where
  noFolder s hs := by
    rw [h.folder]
    exact ha.noFolder s ((h.locate_eq_ok_iff q).1 hs)
  text s hs := ha.text s ((h.locate_eq_ok_iff q).1 hs)
  image s r hs hr := ha.image s r ((h.locate_eq_ok_iff q).1 hs) ((h.locate_eq_ok_iff _).1 hr)

theorem freshImage?_of_sameBut (ha : Avoids fs i q) (h : SameBut i fs fs')
    (himage : freshImage? codec fs q = some program) : freshImage? codec fs' q = some program := by
  obtain ⟨r, s, image, t, text, u, hr, hs, himage, htext, hle, hdecode⟩ :=
    (freshImage?_eq_some_iff ha.noFolder).1 himage
  rw [← h.file r (ha.image s r hs hr)] at himage
  rw [← h.file s (ha.text s hs)] at htext
  exact (freshImage?_eq_some_iff (ha.sameBut h).noFolder).2
    ⟨r, s, image, t, text, u, (h.locate_eq_ok_iff _).2 hr, (h.locate_eq_ok_iff q).2 hs, himage,
      htext, hle, hdecode⟩

theorem program_of_sameBut (ha : Avoids fs i q) (h : SameBut i fs fs')
    (hsource : fs.program q = .ok program) : fs'.program q = .ok program := by
  obtain ⟨s, text, u, hs, htext, hprogram⟩ := program_eq_ok_iff.1 hsource
  rw [← h.file s (ha.text s hs)] at htext
  exact program_eq_ok_iff.2 ⟨s, text, u, (h.locate_eq_ok_iff q).2 hs, htext, hprogram⟩

theorem loaded?_of_sameBut (hext : Path.extension q ≠ imageExtension) (ha : Avoids fs i q)
    (h : SameBut i fs fs') (hloaded : loaded? codec q w fs = some program) :
    loaded? codec q w fs' = some program := by
  rw [loaded?_eq_some_iff hext] at hloaded ⊢
  rcases hloaded with himage | ⟨hnone, hsource, hwrite⟩
  · exact .inl (freshImage?_of_sameBut ha h himage)
  · refine .inr ⟨?_, program_of_sameBut ha h hsource, fun hw => ?_⟩
    · refine Option.eq_none_iff_forall_ne_some.2 fun program' himage => ?_
      cases hnone.symm.trans (freshImage?_of_sameBut (ha.sameBut h) h.symm himage)
    · obtain ⟨r, hr, hfree⟩ := hwrite hw
      exact ⟨r, (h.locate_eq_ok_iff _).2 hr, mt (h.folder r).1 hfree⟩

/-- If another image was written, a path is served what it was served before. -/
theorem loaded?_eq_of_sameBut (hext : Path.extension q ≠ imageExtension) (ha : Avoids fs i q)
    (h : SameBut i fs fs') : loaded? codec q w fs' = loaded? codec q w fs :=
  Option.ext fun _ => ⟨loaded?_of_sameBut hext (ha.sameBut h) h.symm, loaded?_of_sameBut hext ha h⟩

end

section

variable {i r : Route}

/-- A path to a text that gives a program is served this program, unless its image may be used
    and holds another one, or has to be written and cannot be. -/
theorem loaded?_of_text (hext : Path.extension q ≠ imageExtension) {text : Bytes} {u : Int}
    (hq : fs.locate q = .ok r) (hfile : fs.file? r = some (text, u))
    (htext : Program.ofText text = .ok program)
    (hi : fs.locate (imagePath q) = .ok i) (hfree : ¬fs.IsFolder i)
    (himage : ∀ program', freshImage? codec fs q = some program' → program' = program) :
    loaded? codec q w fs = some program := by
  rw [loaded?_eq_some_iff hext]
  cases hfresh : freshImage? codec fs q with
  | some program' => exact .inl (congrArg some (himage program' hfresh))
  | none => exact .inr ⟨rfl, program_eq_ok_iff.2 ⟨r, text, u, hq, hfile, htext⟩,
      fun _ => ⟨i, hi, hfree⟩⟩

/-- Another path to the text whose image was written is served the same program as before. -/
theorem loaded?_eq_of_same_text (h : WritesImage codec fs p program fs')
    (himaged : Imaged codec fs p program fs' i r) (hext : Path.extension q ≠ imageExtension)
    (hq : fs.locate q = .ok r) (hi : fs.locate (imagePath q) = .ok i) :
    loaded? codec q w fs' = some program ∧ loaded? codec q w fs = some program := by
  obtain ⟨r', text, u, hp, hfile, htext⟩ := program_eq_ok_iff.1 h.source
  obtain rfl : r' = r := Except.ok.inj (hp.symm.trans himaged.text)
  constructor
  · -- The image that was written holds this program, and so does the text.
    have hq' := (himaged.same.locate_eq_ok_iff q).2 hq
    have hi' := (himaged.same.locate_eq_ok_iff _).2 hi
    have hfile' : fs'.file? r' = some (text, u) := by
      rw [himaged.same.file r' (himaged.apart hext hq), hfile]
    refine loaded?_of_text hext hq' hfile' htext hi' (mt (himaged.same.folder i).1 himaged.free)
      fun program' hfresh => ?_
    obtain ⟨i', -, image, t, -, -, hi'', -, hholds, -, -, hdecode⟩ :=
      (freshImage?_eq_some_iff (noFolder_of_file? hq' hfile')).1 hfresh
    obtain rfl : i = i' := Except.ok.inj (hi'.symm.trans hi'')
    cases himaged.holds.symm.trans hholds
    exact Except.ok.inj (hdecode.symm.trans himaged.decodes)
  · -- The image was of no use before, for this path as for the other one.
    refine loaded?_of_text hext hq hfile htext hi himaged.free fun program' hfresh => ?_
    obtain ⟨i', s, image, t, text', u', hi', hs, hrest⟩ :=
      (freshImage?_eq_some_iff (noFolder_of_file? hq hfile)).1 hfresh
    obtain rfl : i = i' := Except.ok.inj (hi.symm.trans hi')
    obtain rfl : r' = s := Except.ok.inj (hq.symm.trans hs)
    cases h.stale.symm.trans ((freshImage?_eq_some_iff (noFolder_of_file? hp hfile)).2
      ⟨i, r', image, t, text', u', himaged.image, hp, hrest⟩)

end

/-- Loading one text makes no difference to the load of another one, unless they share an
    image and it is written. Let the codec give back what it was given, let `fs'` be the files
    after a new loader, which writes images, has been asked for `p`; let `q` be another path,
    which does not lead to a folder, and neither of them the path of an image.

    * If no image was written, or the paths do not lead to two texts with one image, then
      a new loader gives for `q` what it would have given before, or fails as before.
    * If the image of `p` was written and `q` leads to another text with this image, then a
      new loader gives the program of `p` for `q`, unless that text is newer than the
      present.
    * Texts with the extension of texts do not share images. -/
theorem images_shared (hcodec : codec.RoundTrips) (htree : fs.IsTree)
    (hp : Path.extension p ≠ imageExtension) (hq : Path.extension q ≠ imageExtension)
    (hfolder : NoFolder fs q) (w : Bool) :
    ((∀ program, WritesImage codec fs p program (filesAfter p (.new fs true codec)) →
        ¬SharesImage fs p q) →
      loaded? codec q w (filesAfter p (.new fs true codec)) = loaded? codec q w fs) ∧
    (∀ program, WritesImage codec fs p program (filesAfter p (.new fs true codec)) →
      SharesImage fs p q → ∀ s text u, fs.locate q = .ok s → fs.file? s = some (text, u) → u ≤ fs.clock →
        loaded? codec q w (filesAfter p (.new fs true codec)) = some program) ∧
    (Path.extension p = sourceExtension → Path.extension q = sourceExtension →
      ¬SharesImage fs p q) := by
  refine ⟨fun hapart => ?_, fun program hwrites hshares s text u hs hfile hle => ?_,
    not_sharesImage⟩
  · rcases filesAfter_cases codec fs hp with hsame | ⟨program, hwrites⟩
    · rw [hsame]
    obtain ⟨i, r, himaged⟩ := hwrites.imaged hcodec htree
    by_cases hi : ∃ s, fs.locate q = .ok s ∧ fs.locate (imagePath q) = .ok i
    · -- With one image, the paths lead to one text.
      obtain ⟨s, hs, hi⟩ := hi
      obtain rfl : r = s := by
        by_contra hne
        exact hapart program hwrites ⟨⟨i, himaged.image, hi⟩, r, s, himaged.text, hs, hne⟩
      obtain ⟨hafter, hbefore⟩ := loaded?_eq_of_same_text (w := w) hwrites himaged hq hs hi
      rw [hafter, hbefore]
    · refine loaded?_eq_of_sameBut hq ⟨hfolder, fun s hs => himaged.apart hq hs, ?_⟩ himaged.same
      rintro s _ hs hr rfl
      exact hi ⟨s, hs, hr⟩
  · obtain ⟨i, r, himaged⟩ := hwrites.imaged hcodec htree
    obtain ⟨i', hpi, hqi⟩ := hshares.image
    obtain rfl : i = i' := Except.ok.inj (himaged.image.symm.trans hpi)
    have hfile' : (filesAfter p (.new fs true codec)).file? s = some (text, u) := by
      rw [himaged.same.file s (himaged.apart hq hs), hfile]
    have hs' := (himaged.same.locate_eq_ok_iff q).2 hs
    have hqi' := (himaged.same.locate_eq_ok_iff _).2 hqi
    refine (loaded?_eq_some_iff hq).2 (.inl ?_)
    exact (freshImage?_eq_some_iff (noFolder_of_file? hs' hfile')).2
      ⟨i, s, _, _, text, u, hqi', hs', himaged.holds, hfile', hle, himaged.decodes⟩

/-- Two programs that share an image: the first gives 1, the other one 2. -/
def twoTexts : Files where
  nodes := [
    (sourceAt [] (utf8 "a"), .file
      (utf8 "C0 C0 FF EE 00 17 00 00 00 00 00 01 00 00 00 00 00 03 10 01 B0 00 00") 0),
    ([utf8 "a.txt"], .file
      (utf8 "C0 C0 FF EE 00 17 00 00 00 00 00 01 00 00 00 00 00 03 10 02 B0 00 00") 0)]
  clock := 5

/-- The other text is served the first program when that has been loaded. -/
theorem images_shared_twoTexts :
    ∃ program, loaded? Image.cbor (utf8 "a.bc0") true twoTexts = some program ∧
      loaded? Image.cbor (utf8 "a.txt") false
        (filesAfter (utf8 "a.bc0") (.new twoTexts true Image.cbor)) = some program := by
  have htree : twoTexts.IsTree := by
    simp [Files.IsTree, twoTexts, sourceAt, isFolder_nil]
  have hp : Path.extension (utf8 "a.bc0") ≠ imageExtension := by decide
  have hq : Path.extension (utf8 "a.txt") ≠ imageExtension := by decide
  have htext : twoTexts.locate (utf8 "a.txt") = .ok [utf8 "a.txt"] := by decide
  have hfolder : NoFolder twoTexts (utf8 "a.txt") := noFolder_of_file? htext rfl
  have hshares : SharesImage twoTexts (utf8 "a.bc0") (utf8 "a.txt") :=
    ⟨⟨[utf8 "a.bc0c"], by decide, by decide⟩, [utf8 "a.bc0"], [utf8 "a.txt"], by decide, htext,
      by decide⟩
  obtain hsame | ⟨program, hwrites⟩ := filesAfter_cases Image.cbor twoTexts hp
  · have himage : ((filesAfter (utf8 "a.bc0") (.new twoTexts true Image.cbor)).file?
        [utf8 "a.bc0c"]).isSome = true := by decide +kernel
    rw [hsame] at himage
    cases himage
  · obtain ⟨i, r, himaged⟩ := hwrites.imaged Image.cbor_roundTrips htree
    exact ⟨program,
      (loaded?_eq_some_iff hp).2 (.inr ⟨hwrites.stale, hwrites.source,
        fun _ => ⟨i, himaged.image, himaged.free⟩⟩),
      (images_shared Image.cbor_roundTrips htree hp hq hfolder false).2.1 program hwrites hshares
        _ _ 0 htext rfl (by decide)⟩

/-- Loading a text can make a difference to the load of another one. -/
theorem images_cross :
    Path.extension (utf8 "a.bc0") ≠ imageExtension ∧
      Path.extension (utf8 "a.txt") ≠ imageExtension ∧
      ((loaded? Image.cbor (utf8 "a.txt") false twoTexts).bind Program.main?).map Function.code =
        some #[0x10, 0x02, 0xB0] ∧
      ((loaded? Image.cbor (utf8 "a.txt") false
        (filesAfter (utf8 "a.bc0") (.new twoTexts true Image.cbor))).bind
          Program.main?).map Function.code = some #[0x10, 0x01, 0xB0] := by
  decide +kernel

end Loader

end CZero
