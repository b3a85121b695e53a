import CZero.Program.HexText
import CZero.Proofs.Text
import Mathlib.Data.List.Forall2

/-!
# What a program looks like as text

A text lays out its words (`Laid`): between them there is white space, there are comments,
each to the end of its line, and nothing else. Every text lays out just the words that are
read off it line by line (`laid_iff`).

The words that stand for a byte are the pairs of hexadecimal digits (`isPair_iff`). If all
words are pairs, the text is read as the bytes that they spell (`ofText_of_spells`), and if
not, the first line with another word is reported (`ofText_of_not_isPair`). So nothing but
the words counts, and the case of their letters does not (`text_accepted`).
-/

namespace CZero.HexText

open Text (isBlank Solid Parted)
open Utf8 (encode Piece)

/-! ## Layouts -/

/-- A line ends here. -/
def LineEnds (text : Bytes) : Prop :=
  text = [] ∨ ∃ more, text = 0x0A :: more

/-- Bytes that are one word: they have neither white space nor a comment in them. -/
structure IsWord (w : Bytes) : Prop where
  ne_nil : w ≠ []
  solid : Solid w
  plain : 0x23 ∉ w

/-- What may stand behind a word: white space, a comment, or nothing. -/
def Ended (text : Bytes) : Prop :=
  Parted text ∨ ∃ more, text = 0x23 :: more

/-- The words `ts` are laid out in the text, with white space between them and with
    comments. -/
inductive Laid : List Bytes → Bytes → Prop
  | nil : Laid [] []
  | blank {c : Char} {ts : List Bytes} {text : Bytes} : isBlank c → Laid ts text →
    Laid ts (encode c ++ text)
  | comment {cs : Bytes} {ts : List Bytes} {text : Bytes} : 0x0A ∉ cs → LineEnds text →
    Laid ts text → Laid ts (0x23 :: cs ++ text)
  | word {w : Bytes} {ts : List Bytes} {text : Bytes} : IsWord w → Ended text → Laid ts text →
    Laid (w :: ts) (w ++ text)

/-- The words of a text, line by line. -/
def tokens (text : Bytes) : List Bytes :=
  (Text.lines text).flatMap words

variable {text body more w cs : Bytes} {ts : List Bytes} {c : Char}

theorem words_nil : words [] = [] :=
  rfl

/-- The words of the first line come before those of the others. -/
theorem tokens_append (hbody : 0x0A ∉ body) (hmore : LineEnds more) :
    tokens (body ++ more) = words body ++ tokens more := by
  obtain rfl | ⟨rest, rfl⟩ := hmore
  · by_cases hne : body = []
    · rw [hne]
      rfl
    · rw [List.append_nil, tokens, Text.lines_of_notMem hbody hne]
      rfl
  · have hrest : Text.lines (0x0A :: rest) = [] :: Text.lines rest :=
      Text.lines_append_newline List.not_mem_nil rest
    rw [tokens, tokens, Text.lines_append_newline hbody, hrest, List.flatMap_cons,
      List.flatMap_cons, words_nil, List.nil_append]

/-- What is left of a text when its first line has been read. -/
def belowLine (text : Bytes) : Bytes :=
  text.dropWhile (· != 0x0A)

theorem before_append_belowLine (text : Bytes) : text.before 0x0A ++ belowLine text = text :=
  List.takeWhile_append_dropWhile

theorem lineEnds_belowLine (text : Bytes) : LineEnds (belowLine text) := by
  induction text with
  | nil => exact .inl rfl
  | cons b text ih =>
    rw [belowLine, List.dropWhile_cons]
    split
    · exact ih
    · rename_i hb
      rw [bne_iff_ne, not_not] at hb
      exact .inr ⟨text, by rw [hb]⟩

/-- Bytes put in front of a text belong to its first line. -/
theorem tokens_append_line (hw : 0x0A ∉ w) (text : Bytes) :
    tokens (w ++ text) = words (w ++ text.before 0x0A) ++ tokens (belowLine text) := by
  have hline : 0x0A ∉ w ++ text.before 0x0A := by
    rw [List.mem_append, not_or]
    exact ⟨hw, Bytes.notMem_before _ _⟩
  rw [← tokens_append hline (lineEnds_belowLine text), List.append_assoc, before_append_belowLine]

/-- The words of a text are those of its first line and those of the rest. -/
theorem tokens_eq (text : Bytes) :
    tokens text = words (text.before 0x0A) ++ tokens (belowLine text) :=
  tokens_append_line List.not_mem_nil text

/-! ## The words of a layout -/

theorem tokens_newline (text : Bytes) : tokens (0x0A :: text) = tokens text := by
  have hlines : Text.lines (0x0A :: text) = [] :: Text.lines text :=
    Text.lines_append_newline List.not_mem_nil text
  rw [tokens, hlines, List.flatMap_cons, words_nil, List.nil_append, tokens]

theorem encode_newline : encode '\n' = [0x0A] :=
  rfl

/-- White space has a newline in it only if it is one. -/
theorem eq_newline (h : 0x0A ∈ encode c) : c = '\n' :=
  Utf8.eq_ofNat_of_mem_encode h (by decide)

theorem notMem_encode (hc : isBlank c) : 0x23 ∉ encode c := by
  intro h
  obtain rfl : c = '#' := Utf8.eq_ofNat_of_mem_encode h (by decide)
  exact absurd hc (by decide)

theorem tokens_blank (hc : isBlank c) (text : Bytes) : tokens (encode c ++ text) = tokens text := by
  by_cases hnewline : 0x0A ∈ encode c
  · rw [eq_newline hnewline]
    exact tokens_newline text
  · rw [tokens_append_line hnewline, tokens_eq text, words,
      Bytes.before_append_of_notMem (notMem_encode hc), Text.fields_encode_append hc, words]

theorem tokens_comment (hcs : 0x0A ∉ cs) (htext : LineEnds text) :
    tokens (0x23 :: cs ++ text) = tokens text := by
  have hline : 0x0A ∉ 0x23 :: cs := by
    rw [List.mem_cons, not_or]
    exact ⟨by decide, hcs⟩
  rw [tokens_append hline htext]
  rfl

theorem IsWord.newline_notMem (hw : IsWord w) : 0x0A ∉ w := by
  intro h
  obtain ⟨front, back, rfl⟩ := List.append_of_mem h
  exact hw.solid '\n' rfl ⟨front, back, by rw [encode_newline, List.append_assoc]; rfl⟩

theorem Ended.parted_line (h : Ended text) : Parted ((text.before 0x0A).before 0x23) := by
  obtain (rfl | ⟨c, more, hc, rfl⟩) | ⟨more, rfl⟩ := h
  · exact .inl rfl
  · by_cases hnewline : 0x0A ∈ encode c
    · rw [eq_newline hnewline]
      exact .inl rfl
    · rw [Bytes.before_append_of_notMem hnewline, Bytes.before_append_of_notMem (notMem_encode hc)]
      exact .inr ⟨c, _, hc, rfl⟩
  · exact .inl rfl

theorem tokens_word (hw : IsWord w) (htext : Ended text) :
    tokens (w ++ text) = w :: tokens text := by
  rw [tokens_append_line hw.newline_notMem, tokens_eq text, words,
    Bytes.before_append_of_notMem hw.plain,
    Text.fields_append hw.solid hw.ne_nil htext.parted_line]
  rfl

theorem Laid.tokens_eq (h : Laid ts text) : tokens text = ts := by
  induction h with
  | nil => rfl
  | blank hc _ ih => rw [tokens_blank hc, ih]
  | comment hcs htext _ ih => rw [tokens_comment hcs htext, ih]
  | word hw htext _ ih => rw [tokens_word hw htext, ih]

/-! ## The layout of a text -/

theorem Ended.not_isTail_head (h : Ended text) : ∀ b ∈ text.head?, ¬Utf8.isTail b := by
  obtain h | ⟨more, rfl⟩ := h
  · exact h.not_isTail_head
  · rintro _ ⟨⟩
    decide

/-- A piece that is neither white space nor the start of a comment belongs to a word. -/
theorem Laid.exists_piece_append {p : Piece} (h : Laid ts text)
    (hp : Utf8.pieces (p.bytes ++ text) = p :: Utf8.pieces text)
    (hblank : Text.isBlankPiece p = false) (hplain : 0x23 ∉ p.bytes) :
    ∃ ts', Laid ts' (p.bytes ++ text) := by
  have hne := Text.piece_ne_nil p
  have hword : IsWord p.bytes := ⟨hne, Text.solid_piece hp hblank, hplain⟩
  cases h with
  | nil => exact ⟨_, .word hword (.inl (.inl rfl)) .nil⟩
  | blank hc h => exact ⟨_, .word hword (.inl (.inr ⟨_, _, hc, rfl⟩)) (.blank hc h)⟩
  | comment hcs htext h => exact ⟨_, .word hword (.inr ⟨_, rfl⟩) (.comment hcs htext h)⟩
  | @word w ts text hw htext h =>
    -- The word that follows is longer by the piece.
    have hlonger : IsWord (p.bytes ++ w) := by
      refine ⟨List.append_ne_nil_of_left_ne_nil hne w, ?_, ?_⟩
      · exact hw.solid.piece_append hp hblank htext.not_isTail_head
      · rw [List.mem_append, not_or]
        exact ⟨hplain, hw.plain⟩
    rw [← List.append_assoc]
    exact ⟨_, .word hlonger htext h⟩

theorem belowLine_append (hw : 0x0A ∉ w) (text : Bytes) : belowLine (w ++ text) = belowLine text :=
  List.dropWhile_append_of_pos (Bytes.bne_of_notMem hw)

/-- Every text is the layout of some words, and so is what stands below its first line. -/
theorem exists_laid (text : Bytes) : (∃ ts, Laid ts text) ∧ ∃ ts, Laid ts (belowLine text) := by
  induction text using Utf8.piece_induction with
  | nil => exact ⟨⟨_, .nil⟩, ⟨_, .nil⟩⟩
  | stray a rest hstray ih =>
    obtain ⟨⟨ts, hrest⟩, hbelow⟩ := ih
    have hother {b : UInt8} (hb : b < 0x80) : b ∉ [a] := by
      intro h
      rw [List.mem_singleton.1 h] at hb
      exact Utf8.not_lt_of_front? hstray hb
    refine ⟨hrest.exists_piece_append (p := .stray a) (Utf8.pieces_stray hstray) rfl
      (hother (by decide)), ?_⟩
    rwa [← List.singleton_append, belowLine_append (hother (by decide))]
  | char c rest ih =>
    obtain ⟨⟨ts, hrest⟩, ⟨us, hbelow⟩⟩ := ih
    have hlaid : ∃ ts, Laid ts (encode c ++ rest) := by
      by_cases hc : isBlank c
      · exact ⟨ts, .blank hc hrest⟩
      by_cases hplain : 0x23 ∈ encode c
      · obtain rfl : c = '#' := Utf8.eq_ofNat_of_mem_encode hplain (by decide)
        have hcomment : Laid us (0x23 :: rest.before 0x0A ++ belowLine rest) :=
          .comment (Bytes.notMem_before _ _) (lineEnds_belowLine rest) hbelow
        rw [List.cons_append, before_append_belowLine] at hcomment
        exact ⟨us, hcomment⟩
      · exact hrest.exists_piece_append (p := .char c) (Utf8.pieces_encode_append c rest)
          (Bool.eq_false_iff.2 hc) hplain
    refine ⟨hlaid, ?_⟩
    by_cases hnewline : 0x0A ∈ encode c
    · obtain rfl := eq_newline hnewline
      exact hlaid
    · rw [belowLine_append hnewline]
      exact ⟨us, hbelow⟩

/-- The words that a text lays out are the words of its lines. -/
theorem laid_iff : Laid ts text ↔ tokens text = ts := by
  refine ⟨Laid.tokens_eq, ?_⟩
  rintro rfl
  obtain ⟨⟨ts, hts⟩, -⟩ := exists_laid text
  rwa [hts.tokens_eq]

/-! ## Pairs of digits -/

/-- A hexadecimal digit, in either case. -/
def IsDigit (x : UInt8) : Prop :=
  0x30 ≤ x ∧ x ≤ 0x39 ∨ 0x41 ≤ x ∧ x ≤ 0x46 ∨ 0x61 ≤ x ∧ x ≤ 0x66

instance (x : UInt8) : Decidable (IsDigit x) :=
  inferInstanceAs (Decidable (_ ∨ _))

/-- Two hexadecimal digits. -/
def IsPair (w : Bytes) : Prop :=
  ∃ x y, w = [x, y] ∧ IsDigit x ∧ IsDigit y

/-- The word is the byte in hexadecimal digits, whatever their case. -/
def Spells (w : Bytes) (b : UInt8) : Prop :=
  w.map upperByte = (hexByte b).map upperByte

instance : DecidableRel Spells :=
  fun _ _ => inferInstanceAs (Decidable (_ = _))

/-- The words are the same, letter case aside. -/
def SameLetters (w w' : Bytes) : Prop :=
  w.map upperByte = w'.map upperByte

@[elab_as_elim]
theorem forall_byte {P : UInt8 → Prop} (b : UInt8) (h : ∀ n < 256, P (UInt8.ofNat n)) : P b := by
  have hb := h b.toNat b.toNat_lt
  rwa [UInt8.ofNat_toNat] at hb

variable {b x y : UInt8} {i n : Nat}

theorem isSome_digit? (x : UInt8) : (Text.digit? 16 x).isSome ↔ IsDigit x :=
  forall_byte x (by decide +kernel)

theorem digit?_upperByte (x : UInt8) : Text.digit? 16 (upperByte x) = Text.digit? 16 x :=
  forall_byte x (by decide +kernel)

/-- A digit and the numeral of its value are the same, whatever their case. -/
theorem upperHex_of_digit? (h : Text.digit? 16 x = some i) : upperHex i = [upperByte x] := by
  have hall : (Text.digit? 16 x).all fun i => upperHex i == [upperByte x] :=
    forall_byte x (by decide +kernel)
  rw [h] at hall
  exact beq_iff_eq.1 hall

theorem digit?_of_upperHex (hi : i < 16) (h : upperHex i = [upperByte x]) :
    Text.digit? 16 x = some i := by
  have hall : ∀ i < 16, (upperHex i).map (Text.digit? 16) = [some i] := by decide +kernel
  have hdigit := hall i hi
  rw [h, List.map_singleton, digit?_upperByte] at hdigit
  exact List.singleton_inj.1 hdigit

theorem length_hex (hi : i < 16) : (hex i).length = 1 := by
  rw [hex, numeral, Nat.toDigits_of_lt_base hi]
  rfl

/-- The digits of a byte are those of its halves. -/
theorem hexByte_eq (b : UInt8) : hexByte b = hex (b.toNat / 16) ++ hex (b.toNat % 16) := by
  have hlt := b.toNat_lt
  have hlo : b.toNat % 16 < 16 := Nat.mod_lt _ (by decide)
  by_cases hb : b.toNat < 16
  · rw [hexByte, zeroPad, Nat.div_eq_of_lt hb, Nat.mod_eq_of_lt hb, length_hex hb]
    rfl
  · have hdigits : hex b.toNat = hex (b.toNat / 16) ++ hex (b.toNat % 16) := by
      rw [hex, hex, hex, numeral, numeral, numeral, ← List.map_append,
        Nat.toDigits_append_toDigits (by decide) (by omega) hlo, Nat.div_add_mod]
    rw [hexByte, zeroPad, hdigits, List.length_append, length_hex (by omega), length_hex hlo]
    rfl

theorem lt_of_digit? (h : Text.digit? 16 x = some i) : i < 16 := by
  rw [Text.digit?, Option.filter_eq_some_iff] at h
  exact of_decide_eq_true h.2

/-- A byte is spelled by its two digits. -/
theorem spells_pair_iff : Spells [x, y] b ↔
    Text.digit? 16 x = some (b.toNat / 16) ∧ Text.digit? 16 y = some (b.toNat % 16) := by
  have hhi : b.toNat / 16 < 16 := by
    have := b.toNat_lt
    omega
  have hlo : b.toNat % 16 < 16 := Nat.mod_lt _ (by decide)
  rw [Spells, hexByte_eq, List.map_append]
  constructor
  · intro (h : [upperByte x] ++ [upperByte y] = _)
    have hlength : [upperByte x].length = ((hex (b.toNat / 16)).map upperByte).length := by
      rw [List.length_map, length_hex hhi]
      rfl
    obtain ⟨hx, hy⟩ := List.append_inj h hlength
    exact ⟨digit?_of_upperHex hhi hx.symm, digit?_of_upperHex hlo hy.symm⟩
  · rintro ⟨hx, hy⟩
    exact congrArg₂ (· ++ ·) (upperHex_of_digit? hx).symm (upperHex_of_digit? hy).symm

theorem exists_pair_of_spells (h : Spells w b) : ∃ x y, w = [x, y] := by
  have hlength : w.length = 2 := by
    have hmap := congrArg List.length h
    have := b.toNat_lt
    rwa [List.length_map, List.length_map, hexByte_eq, List.length_append, length_hex (by omega),
      length_hex (by omega)] at hmap
  exact List.length_eq_two.1 hlength

theorem byteOf_eq_ok_iff : byteOf n w = .ok b ↔ Spells w b := by
  constructor
  · intro h
    unfold byteOf at h
    split at h
    · split at h <;> cases h
      rename_i x y _ _ i j hx hy
      have hi := lt_of_digit? hx
      have hj := lt_of_digit? hy
      have hlt : i * 16 + j < 256 := by omega
      have hb : (UInt8.ofNat (i * 16 + j)).toNat = i * 16 + j := UInt8.toNat_ofNat_of_lt hlt
      have hhi : (i * 16 + j) / 16 = i := by omega
      have hlo : (i * 16 + j) % 16 = j := by omega
      rw [spells_pair_iff, hb, hhi, hlo]
      exact ⟨hx, hy⟩
    · cases h
  · intro h
    obtain ⟨x, y, rfl⟩ := exists_pair_of_spells h
    obtain ⟨hx, hy⟩ := spells_pair_iff.1 h
    have hb : b.toNat / 16 * 16 + b.toNat % 16 = b.toNat := by omega
    simp only [byteOf, hx, hy, hb, UInt8.ofNat_toNat]

/-- The words that spell a byte are the pairs of digits. -/
theorem isPair_iff : IsPair w ↔ ∃ b, Spells w b := by
  constructor
  · rintro ⟨x, y, rfl, hx, hy⟩
    obtain ⟨i, hi⟩ := Option.isSome_iff_exists.1 ((isSome_digit? x).2 hx)
    obtain ⟨j, hj⟩ := Option.isSome_iff_exists.1 ((isSome_digit? y).2 hy)
    have hbyte : byteOf 0 [x, y] = .ok (UInt8.ofNat (i * 16 + j)) := by
      simp only [byteOf, hi, hj]
    exact ⟨_, byteOf_eq_ok_iff.1 hbyte⟩
  · rintro ⟨b, hb⟩
    obtain ⟨x, y, rfl⟩ := exists_pair_of_spells hb
    obtain ⟨hx, hy⟩ := spells_pair_iff.1 hb
    refine ⟨x, y, rfl, (isSome_digit? x).1 ?_, (isSome_digit? y).1 ?_⟩
    · rw [hx]
      rfl
    · rw [hy]
      rfl

theorem forall_isPair_iff : (∀ w ∈ ts, IsPair w) ↔ ∃ d, List.Forall₂ Spells ts d := by
  induction ts with
  | nil => simp
  | cons w ts ih =>
    rw [List.forall_mem_cons, ih, isPair_iff]
    constructor
    · rintro ⟨⟨b, hb⟩, ⟨d, hd⟩⟩
      exact ⟨b :: d, .cons hb hd⟩
    · rintro ⟨_, hd⟩
      cases hd with
      | cons hb hd => exact ⟨⟨_, hb⟩, ⟨_, hd⟩⟩

/-- A word spells no more than one byte. -/
theorem rightUnique_spells : Relator.RightUnique Spells := by
  intro w b b' h h'
  have hbyte : byteOf 0 w = .ok b := byteOf_eq_ok_iff.2 h
  rw [byteOf_eq_ok_iff.2 h'] at hbyte
  exact (Except.ok.inj hbyte).symm

/-! ## Faults of the text -/

/-- The error is about the word `w`, and names the line `n`. -/
def Error.Names (n : Nat) (w : Bytes) (e : Error) : Prop :=
  utf8 "line " ++ decimal n ++ utf8 ": malformed byte " ++ Text.quote w <+: e.message

theorem names_of_byteOf {e : Error} (h : byteOf n w = .error e) : e.Names n w := by
  have hdigit (b : UInt8) : (Error.digit n w b).Names n w := by
    rw [Error.Names, Error.message, List.append_assoc _ (utf8 ": encoding/hex: invalid byte: ")]
    exact List.prefix_append _ _
  unfold byteOf at h
  split at h
  · split at h <;> cases h
    · exact hdigit _
    · exact hdigit _
  · cases h
    exact List.prefix_rfl

theorem byteOf_of_not_isPair (hw : ¬IsPair w) (n : Nat) :
    ∃ e, byteOf n w = .error e ∧ e.Names n w := by
  cases h : byteOf n w with
  | ok b => exact absurd (isPair_iff.2 ⟨b, byteOf_eq_ok_iff.1 h⟩) hw
  | error e => exact ⟨e, rfl, names_of_byteOf h⟩

variable {ls : List Bytes} {d : Bytes}

theorem decodeWords_of_spells (h : List.Forall₂ Spells ts d) (n : Nat) (acc : Array UInt8) :
    decodeWords n acc ts = .ok (acc ++ d.toArray) := by
  induction h generalizing acc with
  | nil => simp [decodeWords]
  | cons hb _ ih =>
    rw [decodeWords, byteOf_eq_ok_iff.2 hb]
    exact (ih (acc.push _)).trans (by simp)

/-- Words that are not all pairs. -/
theorem decodeWords_of_not_isPair (h : ∃ w ∈ ts, ¬IsPair w) (n : Nat) (acc : Array UInt8) :
    ∃ w ∈ ts, ¬IsPair w ∧ ∃ e, decodeWords n acc ts = .error e ∧ e.Names n w := by
  induction ts generalizing acc with
  | nil =>
    obtain ⟨w, ⟨⟩, -⟩ := h
  | cons w ts ih =>
    by_cases hw : IsPair w
    · obtain ⟨b, hb⟩ := isPair_iff.1 hw
      have hts : ∃ w ∈ ts, ¬IsPair w := by
        obtain ⟨v, hv, hbad⟩ := h
        rcases List.mem_cons.1 hv with rfl | hv
        · exact absurd hw hbad
        · exact ⟨v, hv, hbad⟩
      obtain ⟨v, hv, hbad, e, he, hnames⟩ := ih hts (acc.push b)
      refine ⟨v, List.mem_cons_of_mem w hv, hbad, e, ?_, hnames⟩
      rw [decodeWords, byteOf_eq_ok_iff.2 hb]
      exact he
    · obtain ⟨e, he, hnames⟩ := byteOf_of_not_isPair hw n
      refine ⟨w, List.mem_cons_self, hw, e, ?_, hnames⟩
      rw [decodeWords, he]
      rfl

/-- The line at `k` is the first that has a word which is no pair, and `w` is such a word. -/
structure FirstBad (ls : List Bytes) (k : Nat) (w : Bytes) : Prop where
  bad : ∃ line, ls[k]? = some line ∧ w ∈ words line ∧ ¬IsPair w
  first : ∀ j < k, ∀ line, ls[j]? = some line → ∀ w ∈ words line, IsPair w

theorem decodeLines_of_isPair (hls : ∀ l ∈ ls, l.length < lineLimit)
    (h : ∀ w ∈ ls.flatMap words, IsPair w) (n : Nat) (acc : Array UInt8) :
    ∃ d, List.Forall₂ Spells (ls.flatMap words) d ∧
      decodeLines n acc ls = .ok (acc ++ d.toArray) := by
  induction ls generalizing n acc with
  | nil => exact ⟨[], .nil, by simp [decodeLines]⟩
  | cons l ls ih =>
    obtain ⟨hl, hls⟩ := List.forall_mem_cons.1 hls
    rw [List.flatMap_cons, List.forall_mem_append] at h
    obtain ⟨d, hd⟩ := forall_isPair_iff.1 h.1
    obtain ⟨d', hd', hrest⟩ := ih hls h.2 (n + 1) (acc ++ d.toArray)
    refine ⟨d ++ d', List.rel_append hd hd', ?_⟩
    rw [decodeLines, if_neg (Nat.not_le.2 hl), decodeWords_of_spells hd]
    exact hrest.trans (by simp)

theorem decodeLines_of_not_isPair (hls : ∀ l ∈ ls, l.length < lineLimit)
    (h : ∃ w ∈ ls.flatMap words, ¬IsPair w) (n : Nat) (acc : Array UInt8) :
    ∃ k w, FirstBad ls k w ∧ ∃ e, decodeLines n acc ls = .error e ∧ e.Names (n + k) w := by
  induction ls generalizing n acc with
  | nil =>
    obtain ⟨w, ⟨⟩, -⟩ := h
  | cons l ls ih =>
    obtain ⟨hl, hls⟩ := List.forall_mem_cons.1 hls
    rw [decodeLines, if_neg (Nat.not_le.2 hl)]
    by_cases hline : ∃ w ∈ words l, ¬IsPair w
    · obtain ⟨w, hw, hbad, e, he, hnames⟩ := decodeWords_of_not_isPair hline n acc
      refine ⟨0, w, ⟨⟨l, rfl, hw, hbad⟩, fun j hj => absurd hj (Nat.not_lt_zero j)⟩, e, ?_, hnames⟩
      rw [he]
      rfl
    · have hpairs : ∀ w ∈ words l, IsPair w := by
        intro w hw
        by_contra hbad
        exact hline ⟨w, hw, hbad⟩
      obtain ⟨d, hd⟩ := forall_isPair_iff.1 hpairs
      have hrest : ∃ w ∈ ls.flatMap words, ¬IsPair w := by
        obtain ⟨w, hw, hbad⟩ := h
        rw [List.flatMap_cons, List.mem_append] at hw
        exact ⟨w, hw.resolve_left fun hw => hbad (hpairs w hw), hbad⟩
      obtain ⟨k, w, hfirst, e, he, hnames⟩ := ih hls hrest (n + 1) (acc ++ d.toArray)
      refine ⟨k + 1, w, ⟨hfirst.bad, ?_⟩, e, ?_, ?_⟩
      · rintro (_ | j) hj line hline
        · cases hline
          exact hpairs
        · exact hfirst.first j (Nat.lt_of_succ_lt_succ hj) line hline
      · rw [decodeWords_of_spells hd]
        exact he
      · rwa [Nat.add_assoc, Nat.add_comm 1 k] at hnames

/-! ## Programs -/

variable (hlines : ∀ l ∈ Text.lines text, l.length ≤ 65535)
include hlines

/-- A text of pairs is read as the bytes that they spell. -/
theorem ofText_of_spells (hd : List.Forall₂ Spells (tokens text) d) :
    Program.ofText text = (Binary.read d).mapError .binary := by
  have hshort : ∀ l ∈ Text.lines text, l.length < lineLimit :=
    fun l hl => Nat.lt_succ_of_le (hlines l hl)
  obtain ⟨d', hd', hdecode⟩ := decodeLines_of_isPair hshort (forall_isPair_iff.2 ⟨d, hd⟩) 1 #[]
  obtain rfl := rightUnique_spells.forall₂ hd hd'
  have htext : decode text = .ok d := by
    rw [decode, hdecode]
    simp [bind, Except.bind, pure, Except.pure]
  unfold Program.ofText
  rw [htext]
  cases hread : Binary.read d with
  | ok p =>
    simp only [hread]
    rfl
  | error e =>
    simp only [hread]
    rfl

/-- Other texts are refused, for the first line with a word that is no pair. -/
theorem ofText_of_not_isPair (hbad : ∃ w ∈ tokens text, ¬IsPair w) :
    ∃ k w, FirstBad (Text.lines text) k w ∧
      ∃ e, Program.ofText text = .error (.text e) ∧ e.Names (k + 1) w := by
  have hshort : ∀ l ∈ Text.lines text, l.length < lineLimit :=
    fun l hl => Nat.lt_succ_of_le (hlines l hl)
  obtain ⟨k, w, hfirst, e, he, hnames⟩ := decodeLines_of_not_isPair hshort hbad 1 #[]
  refine ⟨k, w, hfirst, e, ?_, by rwa [Nat.add_comm] at hnames⟩
  have htext : decode text = .error e := by
    rw [decode, he]
    rfl
  rw [Program.ofText, htext]

theorem ofText_eq_ok_iff {p : Program} : Program.ofText text = .ok p ↔
    ∃ d, List.Forall₂ Spells (tokens text) d ∧ Binary.read d = .ok p := by
  constructor
  · intro hp
    have hpairs : ∀ w ∈ tokens text, IsPair w := by
      intro w hw
      by_contra hbad
      obtain ⟨-, -, -, e, he, -⟩ := ofText_of_not_isPair hlines ⟨w, hw, hbad⟩
      cases hp.symm.trans he
    obtain ⟨d, hd⟩ := forall_isPair_iff.1 hpairs
    refine ⟨d, hd, ?_⟩
    rw [ofText_of_spells hlines hd] at hp
    cases hread : Binary.read d with
    | ok q =>
      rw [hread] at hp
      cases hp
      rfl
    | error e =>
      rw [hread] at hp
      cases hp
  · rintro ⟨d, hd, hread⟩
    rw [ofText_of_spells hlines hd, hread]
    rfl

omit hlines in
theorem spells_of_sameLetters {ts' : List Bytes} (h : List.Forall₂ SameLetters ts ts')
    (hd : List.Forall₂ Spells ts d) : List.Forall₂ Spells ts' d := by
  induction h generalizing d with
  | nil => exact hd
  | cons hw _ ih =>
    cases hd with
    | cons hb hd => exact .cons (hw.symm.trans hb) (ih hd)

/-- Which texts are programs. No line of the text has more than 65535 bytes. The words of the
    text are what is left of its lines before the comments, split at white space; that is,
    they are the words that it lays out. It is read as a program exactly if every word is a
    pair of hexadecimal digits, and the bytes that the words spell are read as that program.
    If some word is no pair, the error names the first line that has such a word, counted
    from 1. So texts that lay out the same words, but for the case of letters, are read as
    the same program or are both refused, and a text that lays out words for given bytes is
    read as these bytes are. -/
theorem text_accepted :
    (∀ ts, Laid ts text ↔ tokens text = ts) ∧
    (∀ p, Program.ofText text = .ok p ↔ (∀ w ∈ tokens text, IsPair w) ∧
      ∃ d, List.Forall₂ Spells (tokens text) d ∧ Binary.read d = .ok p) ∧
    ((∃ w ∈ tokens text, ¬IsPair w) → ∃ k w, FirstBad (Text.lines text) k w ∧
      ∃ e, Program.ofText text = .error (.text e) ∧ e.Names (k + 1) w) ∧
    (∀ ts ts' text', Laid ts text → Laid ts' text' → List.Forall₂ SameLetters ts ts' →
      (∀ l ∈ Text.lines text', l.length ≤ 65535) →
      ∀ p, Program.ofText text = .ok p ↔ Program.ofText text' = .ok p) ∧
    ∀ ts d, Laid ts text → List.Forall₂ Spells ts d →
      Program.ofText text = (Binary.read d).mapError .binary := by
  refine ⟨fun ts => laid_iff, fun p => ?_, ofText_of_not_isPair hlines, ?_, ?_⟩
  · rw [ofText_eq_ok_iff hlines, iff_and_self]
    rintro ⟨d, hd, -⟩
    exact forall_isPair_iff.2 ⟨d, hd⟩
  · intro ts ts' text' hts hts' hletters hlines' p
    rw [ofText_eq_ok_iff hlines, ofText_eq_ok_iff hlines', hts.tokens_eq, hts'.tokens_eq]
    have hletters' : List.Forall₂ SameLetters ts' ts := hletters.flip.imp fun _ _ h => h.symm
    constructor
    · rintro ⟨d, hd, hread⟩
      exact ⟨d, spells_of_sameLetters hletters hd, hread⟩
    · rintro ⟨d, hd, hread⟩
      exact ⟨d, spells_of_sameLetters hletters' hd, hread⟩
  · intro ts d hts hd
    rw [← hts.tokens_eq] at hd
    exact ofText_of_spells hlines hd

omit hlines

/-- A program of one function that returns 7. -/
def sampleBytes : Bytes :=
  [0xC0, 0xC0, 0xFF, 0xEE, 0x00, 0x17, 0x00, 0x00, 0x00, 0x00, 0x00, 0x01, 0x00, 0x00, 0x00, 0x00,
    0x00, 0x02, 0x10, 0x07, 0x00, 0x00]

/-- The same as text, in letters of both cases, with comments, with a no-break space and
    with lines that end with a carriage return. -/
def sampleText : Bytes :=
  utf8 "# magic\r\nC0 c0 fF\u00a0EE\r\n\r\n00 17# version\n00 00 00 00 00 01\t00 00 00 00 00 02
    10 07 # bipush 7\n00\n00"

theorem text_accepted_sample :
    (∀ l ∈ Text.lines sampleText, l.length ≤ 65535) ∧
      Laid (tokens sampleText) sampleText ∧ List.Forall₂ Spells (tokens sampleText) sampleBytes ∧
      ∃ p, Binary.read sampleBytes = .ok p ∧ Program.ofText sampleText = .ok p := by
  have hlines : ∀ l ∈ Text.lines sampleText, l.length ≤ 65535 := by decide +kernel
  have hspells : List.Forall₂ Spells (tokens sampleText) sampleBytes := by decide +kernel
  obtain ⟨p, hp⟩ : ∃ p, Binary.read sampleBytes = .ok p := by
    have hok : (Binary.read sampleBytes).isOk := by decide +kernel
    cases h : Binary.read sampleBytes with
    | ok p => exact ⟨p, rfl⟩
    | error e =>
      rw [h] at hok
      cases hok
  obtain ⟨hlaid, -, -, -, hread⟩ := text_accepted hlines
  have htokens : Laid (tokens sampleText) sampleText := (hlaid _).2 rfl
  refine ⟨hlines, htokens, hspells, p, hp, ?_⟩
  rw [hread _ _ htokens hspells, hp]
  rfl

end CZero.HexText
