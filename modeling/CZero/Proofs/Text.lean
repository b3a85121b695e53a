import CZero.Text.Blank
import CZero.Text.Lines
import Mathlib.Data.List.Basic
import Mathlib.Data.List.TakeWhile

/-!
# Text in pieces

The longest front part of a byte string without a given byte, and its lines, are found part
by part (`Bytes.before_append_of_notMem`, `lines_append_newline`).

The bytes of a character are found where they stand (`front?_of_encodes`), and what is
found is a character (`encodes_of_front?`). So the pieces of a byte string cover it
(`flatMap_pieces`), and they are the pieces of its parts, if no part starts in the middle of
a character (`pieces_append`): the first byte of a character is never a tail byte, and the
others always are.

White space parts a byte string into its fields: in front of a field it does not count
(`fields_encode_append`), and behind it, it ends the field (`fields_append`).
-/

/-! ## Front parts and lines -/

namespace CZero

/-- What comes behind a NUL does not matter to the string before it. -/
theorem Bytes.before_append {bs : Bytes} (h : 0 ∈ bs) (cs : Bytes) :
    before 0 (bs ++ cs) = before 0 bs := by
  induction bs with
  | nil => cases h
  | cons b bs ih =>
    by_cases hb : b = 0
    · simp [before, hb]
    · have hmem : 0 ∈ bs := List.mem_of_ne_of_mem (Ne.symm hb) h
      simpa [before, hb] using ih hmem

theorem Bytes.bne_of_notMem {b : UInt8} {bs : Bytes} (h : b ∉ bs) : ∀ x ∈ bs, (x != b) = true :=
  fun _ hx => bne_iff_ne.2 (ne_of_mem_of_not_mem hx h)

theorem Bytes.before_append_of_notMem {b : UInt8} {bs : Bytes} (h : b ∉ bs) (cs : Bytes) :
    before b (bs ++ cs) = bs ++ before b cs :=
  List.takeWhile_append_of_pos (bne_of_notMem h)

theorem Bytes.notMem_before (b : UInt8) (bs : Bytes) : b ∉ before b bs := by
  intro h
  have hne := List.mem_takeWhile_imp (p := (· != b)) h
  simp at hne

/-- Behind the front part stands the byte that ends it. -/
theorem Bytes.exists_eq_before_append {b : UInt8} {bs : Bytes} (h : b ∈ bs) :
    ∃ more, bs = before b bs ++ b :: more := by
  induction bs with
  | nil => cases h
  | cons c bs ih =>
    by_cases hc : c = b
    · exact ⟨bs, by simp [before, hc]⟩
    · obtain ⟨more, hmore⟩ := ih (List.mem_of_ne_of_mem (Ne.symm hc) h)
      exact ⟨more, by simpa [before, hc] using hmore⟩

/-- Without the byte that ends it, a front part is all there is. -/
theorem Bytes.before_eq_self {b : UInt8} {bs : Bytes} (h : b ∉ bs) : before b bs = bs := by
  have hend := before_append_of_notMem h []
  rw [List.append_nil] at hend
  exact hend.trans (List.append_nil bs)

namespace Text

theorem linesAux_eq_append (cur : Bytes) (done : List Bytes) (bs : Bytes) :
    linesAux cur done bs = done.reverse ++ linesAux cur [] bs := by
  induction bs generalizing cur done with
  | nil => by_cases hcur : cur.isEmpty <;> simp [linesAux, closeLine, hcur]
  | cons b bs ih =>
    rw [linesAux, linesAux]
    split
    · rw [ih [] (closeLine cur done), ih [] (closeLine cur [])]
      simp [closeLine]
    · exact ih (b :: cur) done

theorem linesAux_append {body : Bytes} (h : 0x0A ∉ body) (cur rest : Bytes) :
    linesAux cur [] (body ++ rest) = linesAux (body.reverse ++ cur) [] rest := by
  induction body generalizing cur with
  | nil => rfl
  | cons b body ih =>
    rw [List.mem_cons, not_or] at h
    rw [List.cons_append, linesAux, if_neg (Ne.symm h.1), ih h.2, List.reverse_cons,
      List.append_assoc]
    rfl

theorem lines_append_newline {body : Bytes} (h : 0x0A ∉ body) (rest : Bytes) :
    lines (body ++ 0x0A :: rest) = body :: lines rest := by
  rw [lines, linesAux_append h, linesAux, if_pos rfl, linesAux_eq_append]
  simp [closeLine, lines]

theorem lines_of_notMem {body : Bytes} (h : 0x0A ∉ body) (hne : body ≠ []) :
    lines body = [body] := by
  rw [lines, ← List.append_nil body, linesAux_append h, linesAux]
  simp [closeLine, hne]

end Text

end CZero

namespace CZero.Utf8

variable {a b x y : UInt8} {c : Char} {n : Nat} {bs more rest : Bytes}

/-! ## Characters -/

/-- The bytes of a character, by their number and their values. -/
inductive Encodes (c : Char) : Bytes → Prop
  | one {a : UInt8} : c.toNat < 0x80 → a.toNat = c.toNat → Encodes c [a]
  | two {a b : UInt8} : 0x80 ≤ c.toNat → c.toNat < 0x800 →
    a.toNat = 0xC0 + c.toNat / 64 → b.toNat = 0x80 + c.toNat % 64 → Encodes c [a, b]
  | three {a b x : UInt8} : 0x800 ≤ c.toNat → c.toNat < 0x10000 →
    a.toNat = 0xE0 + c.toNat / 4096 → b.toNat = 0x80 + c.toNat / 64 % 64 →
    x.toNat = 0x80 + c.toNat % 64 → Encodes c [a, b, x]
  | four {a b x y : UInt8} : 0x10000 ≤ c.toNat →
    a.toNat = 0xF0 + c.toNat / 262144 → b.toNat = 0x80 + c.toNat / 4096 % 64 →
    x.toNat = 0x80 + c.toNat / 64 % 64 → y.toNat = 0x80 + c.toNat % 64 → Encodes c [a, b, x, y]

theorem toNat_lt (c : Char) : c.toNat < 0x110000 := by
  rcases c.valid with h | ⟨-, h⟩
  · exact Nat.lt_trans h (by decide)
  · exact h

theorem encodes_iff : Encodes c bs ↔ encode c = bs := by
  constructor
  · intro h
    rw [encode]
    cases h with
    | one hn ha => rw [if_pos hn, ← ha, Nat.toUInt8_eq, UInt8.ofNat_toNat]
    | two hlo hhi ha hb =>
      rw [if_neg (by omega), if_pos hhi, ← ha, ← hb]
      simp
    | three hlo hhi ha hb hx =>
      rw [if_neg (by omega), if_neg (by omega), if_pos hhi, ← ha, ← hb, ← hx]
      simp
    | four hlo ha hb hx hy =>
      rw [if_neg (by omega), if_neg (by omega), if_neg (by omega), ← ha, ← hb, ← hx, ← hy]
      simp
  · rintro rfl
    have hlt := toNat_lt c
    have hbyte {n : Nat} (h : n < 256) : n.toUInt8.toNat = n := UInt8.toNat_ofNat_of_lt h
    rw [encode]
    split
    · exact .one ‹_› (hbyte (by omega))
    split
    · exact .two (by omega) ‹_› (hbyte (by omega)) (hbyte (by omega))
    split
    · exact .three (by omega) ‹_› (hbyte (by omega)) (hbyte (by omega)) (hbyte (by omega))
    · exact .four (by omega) (hbyte (by omega)) (hbyte (by omega)) (hbyte (by omega))
        (hbyte (by omega))

theorem toNat_ofNat (h : n.isValidChar) : (Char.ofNat n).toNat = n := by
  rw [Char.ofNat, dif_pos h]
  rfl

theorem isTail_iff : isTail b ↔ 0x80 ≤ b.toNat ∧ b.toNat ≤ 0xBF := by
  simp [isTail, UInt8.le_iff_toNat_le]

theorem two?_eq_some_iff : two? a b = some c ↔ Encodes c [a, b] := by
  have hguard : (0xC2 ≤ a && a ≤ 0xDF && isTail b) = true ↔
      0xC2 ≤ a.toNat ∧ a.toNat ≤ 0xDF ∧ 0x80 ≤ b.toNat ∧ b.toNat ≤ 0xBF := by
    simp [isTail_iff, UInt8.le_iff_toNat_le, and_assoc]
  rw [two?]
  constructor
  · intro h
    split at h <;> cases h
    have hbytes := hguard.1 ‹_›
    have hn := toNat_ofNat (n := a.toNat % 32 * 64 + b.toNat % 64) (.inl (by omega))
    simp only [tailBits]
    exact .two (by omega) (by omega) (by omega) (by omega)
  · intro h
    cases h with
    | two hlo hhi ha hb =>
      have hn : a.toNat % 32 * 64 + b.toNat % 64 = c.toNat := by omega
      rw [if_pos (hguard.2 (by omega)), tailBits, hn, Char.ofNat_toNat]

theorem three?_eq_some_iff : three? a b x = some c ↔ Encodes c [a, b, x] := by
  have hguard : (0xE0 ≤ a && a ≤ 0xEF && isTail b && isTail x
        && (a != 0xE0 || 0xA0 ≤ b) && (a != 0xED || b ≤ 0x9F)) = true ↔
      0xE0 ≤ a.toNat ∧ a.toNat ≤ 0xEF ∧ 0x80 ≤ b.toNat ∧ b.toNat ≤ 0xBF ∧
        0x80 ≤ x.toNat ∧ x.toNat ≤ 0xBF ∧ (a.toNat ≠ 0xE0 ∨ 0xA0 ≤ b.toNat) ∧
        (a.toNat ≠ 0xED ∨ b.toNat ≤ 0x9F) := by
    simp [isTail_iff, UInt8.le_iff_toNat_le, ← UInt8.toNat_inj, and_assoc]
  rw [three?]
  constructor
  · intro h
    split at h <;> cases h
    have hbytes := hguard.1 ‹_›
    have hn := toNat_ofNat (n := a.toNat % 16 * 4096 + b.toNat % 64 * 64 + x.toNat % 64)
      (by rw [Nat.isValidChar]; omega)
    simp only [tailBits]
    exact .three (by omega) (by omega) (by omega) (by omega) (by omega)
  · intro h
    cases h with
    | three hlo hhi ha hb hx =>
      have hn : a.toNat % 16 * 4096 + b.toNat % 64 * 64 + x.toNat % 64 = c.toNat := by omega
      -- A character is no surrogate, which is what the second byte after 0xED is for.
      have hvalid : c.toNat < 0xD800 ∨ 0xDFFF < c.toNat ∧ c.toNat < 0x110000 := c.valid
      rw [if_pos (hguard.2 (by omega)), tailBits, tailBits, hn, Char.ofNat_toNat]

theorem four?_eq_some_iff : four? a b x y = some c ↔ Encodes c [a, b, x, y] := by
  have hguard : (0xF0 ≤ a && a ≤ 0xF4 && isTail b && isTail x && isTail y
        && (a != 0xF0 || 0x90 ≤ b) && (a != 0xF4 || b ≤ 0x8F)) = true ↔
      0xF0 ≤ a.toNat ∧ a.toNat ≤ 0xF4 ∧ 0x80 ≤ b.toNat ∧ b.toNat ≤ 0xBF ∧
        0x80 ≤ x.toNat ∧ x.toNat ≤ 0xBF ∧ 0x80 ≤ y.toNat ∧ y.toNat ≤ 0xBF ∧
        (a.toNat ≠ 0xF0 ∨ 0x90 ≤ b.toNat) ∧ (a.toNat ≠ 0xF4 ∨ b.toNat ≤ 0x8F) := by
    simp [isTail_iff, UInt8.le_iff_toNat_le, ← UInt8.toNat_inj, and_assoc]
  rw [four?]
  constructor
  · intro h
    split at h <;> cases h
    have hbytes := hguard.1 ‹_›
    have hn := toNat_ofNat
      (n := a.toNat % 8 * 262144 + b.toNat % 64 * 4096 + x.toNat % 64 * 64 + y.toNat % 64)
      (by rw [Nat.isValidChar]; omega)
    simp only [tailBits]
    exact .four (by omega) (by omega) (by omega) (by omega) (by omega)
  · intro h
    cases h with
    | four hlo ha hb hx hy =>
      have hlt := toNat_lt c
      have hn : a.toNat % 8 * 262144 + b.toNat % 64 * 4096 + x.toNat % 64 * 64 + y.toNat % 64 =
          c.toNat := by omega
      rw [if_pos (hguard.2 (by omega)), tailBits, tailBits, tailBits, hn, Char.ofNat_toNat]

variable {t : Bytes}

/-- All bytes of a character but its first are tail bytes. -/
theorem Encodes.isTail_of_mem (h : Encodes c (a :: t)) (hb : b ∈ t) : isTail b := by
  rw [isTail_iff]
  cases h with
  | one hn ha => cases hb
  | two hlo hhi ha hb' =>
    obtain rfl := List.mem_singleton.1 hb
    omega
  | three hlo hhi ha hb' hx =>
    simp only [List.mem_cons, List.not_mem_nil, or_false] at hb
    rcases hb with rfl | rfl <;> omega
  | four hlo ha hb' hx hy =>
    simp only [List.mem_cons, List.not_mem_nil, or_false] at hb
    rcases hb with rfl | rfl | rfl <;> omega

theorem Encodes.not_isTail (h : Encodes c (a :: t)) : ¬isTail a := by
  have hlt := toNat_lt c
  rw [isTail_iff]
  cases h <;> omega

/-- How many bytes follow the first byte of a character. -/
def following (a : UInt8) : Nat :=
  if a.toNat < 0x80 then 0 else if a.toNat < 0xE0 then 1 else if a.toNat < 0xF0 then 2 else 3

theorem Encodes.length_eq (h : Encodes c (a :: t)) : t.length = following a := by
  have hlt := toNat_lt c
  rw [following]
  cases h with
  | one hn ha =>
    rw [if_pos (by omega)]
    rfl
  | two hlo hhi ha hb =>
    rw [if_neg (by omega), if_pos (by omega)]
    rfl
  | three hlo hhi ha hb hx =>
    rw [if_neg (by omega), if_neg (by omega), if_pos (by omega)]
    rfl
  | four hlo ha hb hx hy =>
    rw [if_neg (by omega), if_neg (by omega), if_neg (by omega)]
    rfl

theorem lt_iff_toNat_lt : a < 0x80 ↔ a.toNat < 0x80 :=
  UInt8.lt_iff_toNat_lt

theorem two?_of_encodes (h : Encodes c (a :: t)) (ht : t.length ≠ 1) : two? a b = none := by
  rw [Option.eq_none_iff_forall_ne_some]
  intro d hd
  exact ht (h.length_eq.trans (two?_eq_some_iff.1 hd).length_eq.symm)

theorem three?_of_encodes (h : Encodes c (a :: t)) (ht : t.length ≠ 2) : three? a b x = none := by
  rw [Option.eq_none_iff_forall_ne_some]
  intro d hd
  exact ht (h.length_eq.trans (three?_eq_some_iff.1 hd).length_eq.symm)

/-- A character is found where its bytes stand, whatever follows. -/
theorem front?_of_encodes (h : Encodes c (a :: t)) (more : Bytes) :
    front? a (t ++ more) = some (c, t.length) := by
  have hbytes := h
  unfold front?
  cases h with
  | one hn ha =>
    rw [if_pos (lt_iff_toNat_lt.2 (by omega)), ha, Char.ofNat_toNat]
    rfl
  | two hlo hhi ha hb =>
    rw [if_neg (by rw [lt_iff_toNat_lt]; omega)]
    simp [two?_eq_some_iff.2 hbytes]
  | three hlo hhi ha hb hx =>
    rw [if_neg (by rw [lt_iff_toNat_lt]; omega)]
    simp [two?_of_encodes hbytes, three?_eq_some_iff.2 hbytes]
  | four hlo ha hb hx hy =>
    rw [if_neg (by rw [lt_iff_toNat_lt]; omega)]
    simp [two?_of_encodes hbytes, three?_of_encodes hbytes, four?_eq_some_iff.2 hbytes]

/-- What is found at the front is a character, written in the bytes there. -/
theorem encodes_of_front? (h : front? a rest = some (c, n)) :
    ∃ t more, rest = t ++ more ∧ t.length = n ∧ Encodes c (a :: t) := by
  unfold front? at h
  split at h
  · rename_i ha
    cases h
    rw [lt_iff_toNat_lt] at ha
    have hn : (Char.ofNat a.toNat).toNat = a.toNat := toNat_ofNat (.inl (by omega))
    exact ⟨[], rest, rfl, rfl, .one (by omega) hn.symm⟩
  split at h
  · cases h
  rename_i b rest
  split at h
  · rename_i hc
    cases h
    exact ⟨[b], rest, rfl, rfl, two?_eq_some_iff.1 hc⟩
  split at h
  · cases h
  rename_i x rest
  split at h
  · rename_i hc
    cases h
    exact ⟨[b, x], rest, rfl, rfl, three?_eq_some_iff.1 hc⟩
  split at h
  · cases h
  rename_i y rest
  obtain ⟨d, hd, ⟨⟩⟩ := Option.map_eq_some_iff.1 h
  exact ⟨[b, x, y], rest, rfl, rfl, four?_eq_some_iff.1 hd⟩

theorem not_lt_of_front? (h : front? a rest = none) : ¬a < 0x80 := by
  intro ha
  unfold front? at h
  rw [if_pos ha] at h
  cases h

/-- Bytes that start with no tail byte do not belong to a character before them. -/
theorem front?_append (hmore : ∀ b ∈ more.head?, ¬isTail b) (a : UInt8) (bs : Bytes) :
    front? a (bs ++ more) = front? a bs := by
  cases hbs : front? a bs with
  | some found =>
    obtain ⟨t, rest, rfl, hn, hc⟩ := encodes_of_front? hbs
    rw [List.append_assoc, front?_of_encodes hc, hn]
  | none =>
    rw [Option.eq_none_iff_forall_ne_some]
    rintro ⟨c, n⟩ hfound
    obtain ⟨t, rest, hrest, hn, hc⟩ := encodes_of_front? hfound
    rcases List.append_eq_append_iff.1 hrest with ⟨u, rfl, hu⟩ | ⟨u, rfl, hu⟩
    · -- The character would go on behind `bs`.
      cases u with
      | nil =>
        have hfront := front?_of_encodes hc []
        rw [List.append_nil, List.append_nil, hbs] at hfront
        cases hfront
      | cons b u =>
        refine hmore b (by rw [hu]; rfl) (hc.isTail_of_mem ?_)
        simp
    · rw [front?_of_encodes hc] at hbs
      cases hbs

/-! ## Pieces -/

theorem piecesAux_eq (acc : List Piece) (skip : Nat) (bs : Bytes) :
    piecesAux acc skip bs = acc.reverse ++ pieces (bs.drop skip) := by
  induction bs generalizing acc skip with
  | nil => simp [piecesAux, pieces]
  | cons a rest ih =>
    cases skip with
    | succ n => rw [piecesAux, ih, List.drop_succ_cons]
    | zero =>
      rw [List.drop_zero, pieces, piecesAux, piecesAux]
      cases front? a rest with
      | none => simp [ih]
      | some found => simp [ih]

theorem encode_ne_nil (c : Char) : encode c ≠ [] := by
  intro h
  cases encodes_iff.2 h

theorem pieces_encode_append (c : Char) (rest : Bytes) :
    pieces (encode c ++ rest) = .char c :: pieces rest := by
  obtain ⟨a, t, hc⟩ := List.exists_cons_of_ne_nil (encode_ne_nil c)
  rw [hc, List.cons_append, pieces, piecesAux, front?_of_encodes (encodes_iff.2 hc)]
  simp [piecesAux_eq]

/-- A byte below 128 is all there is of a character. -/
theorem eq_ofNat_of_mem_encode (hb : b ∈ encode c) (hlt : b.toNat < 0x80) :
    c = Char.ofNat b.toNat := by
  obtain ⟨a, t, hc⟩ := List.exists_cons_of_ne_nil (encode_ne_nil c)
  have hbytes := encodes_iff.2 hc
  rw [hc] at hb
  rcases List.mem_cons.1 hb with rfl | hb
  · cases hbytes with
    | one hn ha => rw [ha, Char.ofNat_toNat]
    | two | three | four => omega
  · have htail := isTail_iff.1 (hbytes.isTail_of_mem hb)
    omega

/-- A character does not start with a tail byte. -/
theorem not_isTail_head (c : Char) (more : Bytes) : ∀ b ∈ (encode c ++ more).head?, ¬isTail b := by
  obtain ⟨a, t, hc⟩ := List.exists_cons_of_ne_nil (encode_ne_nil c)
  rw [hc]
  rintro _ ⟨⟩
  exact (encodes_iff.2 hc).not_isTail

theorem pieces_stray (h : front? a rest = none) : pieces (a :: rest) = .stray a :: pieces rest := by
  rw [pieces, piecesAux, h]
  simp [piecesAux_eq]

/-- A byte string is empty, or starts with a character, or with a stray byte. -/
@[elab_as_elim]
theorem piece_induction {P : Bytes → Prop} (nil : P [])
    (char : ∀ c rest, P rest → P (encode c ++ rest))
    (stray : ∀ a rest, front? a rest = none → P rest → P (a :: rest)) (bs : Bytes) : P bs := by
  induction h : bs.length using Nat.strongRecOn generalizing bs with
  | ind n ih =>
    match bs with
    | [] => exact nil
    | a :: rest =>
      cases hfront : front? a rest with
      | none => exact stray a rest hfront (ih rest.length (by simp [← h]) rest rfl)
      | some found =>
        obtain ⟨t, more, rfl, -, hc⟩ := encodes_of_front? hfront
        rw [← List.cons_append, ← encodes_iff.1 hc]
        refine char found.1 more (ih more.length ?_ more rfl)
        rw [← h, List.length_cons, List.length_append]
        omega

/-- The pieces cover the bytes. -/
theorem flatMap_pieces (bs : Bytes) : (pieces bs).flatMap Piece.bytes = bs := by
  induction bs using piece_induction with
  | nil => rfl
  | char c rest ih =>
    rw [pieces_encode_append, List.flatMap_cons, ih]
    rfl
  | stray a rest h ih =>
    rw [pieces_stray h, List.flatMap_cons, ih]
    rfl

/-- The pieces of two strings, of which the second starts with no tail byte. -/
theorem pieces_append (hmore : ∀ b ∈ more.head?, ¬isTail b) (bs : Bytes) :
    pieces (bs ++ more) = pieces bs ++ pieces more := by
  induction bs using piece_induction with
  | nil => rfl
  | char c rest ih =>
    rw [List.append_assoc, pieces_encode_append, pieces_encode_append, ih, List.cons_append]
  | stray a rest h ih =>
    have h' : front? a (rest ++ more) = none := by rw [front?_append hmore, h]
    rw [List.cons_append, pieces_stray h', pieces_stray h, ih, List.cons_append]

end CZero.Utf8

namespace CZero.Text

open Utf8 (Piece encode pieces)

variable {c : Char} {bs rest w : Bytes} {ps : List Piece}

/-! ## Fields -/

theorem fieldsAux_eq_append (cur : List Piece) (done : List Bytes) (ps : List Piece) :
    fieldsAux cur done ps = done.reverse ++ fieldsAux cur [] ps := by
  induction ps generalizing cur done with
  | nil => by_cases hcur : cur.isEmpty <;> simp [fieldsAux, closeField, hcur]
  | cons p ps ih =>
    rw [fieldsAux, fieldsAux]
    split
    · rw [ih [] (closeField cur done), ih [] (closeField cur [])]
      by_cases hcur : cur.isEmpty <;> simp [closeField, hcur]
    · exact ih (p :: cur) done

theorem fieldsAux_append (hps : ∀ p ∈ ps, isBlankPiece p = false) (cur qs : List Piece) :
    fieldsAux cur [] (ps ++ qs) = fieldsAux (ps.reverse ++ cur) [] qs := by
  induction ps generalizing cur with
  | nil => rfl
  | cons p ps ih =>
    obtain ⟨hp, hps⟩ := List.forall_mem_cons.1 hps
    rw [List.cons_append, fieldsAux, hp, if_neg Bool.false_ne_true, ih hps, List.reverse_cons,
      List.append_assoc, List.singleton_append]

/-- White space in front does not count. -/
theorem fields_encode_append (hc : isBlank c) (bs : Bytes) :
    fields (encode c ++ bs) = fields bs := by
  rw [fields, Utf8.pieces_encode_append, fieldsAux, isBlankPiece, if_pos hc]
  rfl

/-- The bytes have no white space in them. -/
def Solid (bs : Bytes) : Prop :=
  ∀ c, isBlank c → ¬encode c <:+: bs

theorem Solid.pieces (hw : Solid w) {p : Piece} (hp : p ∈ pieces w) : isBlankPiece p = false := by
  cases p with
  | stray b => rfl
  | char c =>
    rw [isBlankPiece, ← Bool.not_eq_true]
    intro hc
    obtain ⟨ps, qs, hpieces⟩ := List.append_of_mem hp
    refine hw c hc ⟨ps.flatMap Piece.bytes, qs.flatMap Piece.bytes, ?_⟩
    rw [← Utf8.flatMap_pieces w, hpieces]
    simp [Piece.bytes]

/-- The string is over, or goes on with white space. -/
def Parted (rest : Bytes) : Prop :=
  rest = [] ∨ ∃ c more, isBlank c ∧ rest = encode c ++ more

theorem Parted.not_isTail_head (h : Parted rest) : ∀ b ∈ rest.head?, ¬Utf8.isTail b := by
  obtain rfl | ⟨c, more, -, rfl⟩ := h
  · rintro _ ⟨⟩
  · exact Utf8.not_isTail_head c more

/-- White space, or the end, behind a field ends it. -/
theorem fields_append (hw : Solid w) (hne : w ≠ []) (hrest : Parted rest) :
    fields (w ++ rest) = w :: fields rest := by
  have hclose : closeField (pieces w).reverse [] = [w] := by
    have hpieces : pieces w ≠ [] := by
      intro h
      rw [← Utf8.flatMap_pieces w, h] at hne
      exact hne rfl
    simp [closeField, hpieces, Utf8.flatMap_pieces]
  rw [fields, Utf8.pieces_append hrest.not_isTail_head, fieldsAux_append fun _ => hw.pieces,
    List.append_nil]
  obtain rfl | ⟨c, more, hc, rfl⟩ := hrest
  · exact congrArg List.reverse hclose
  · rw [fields_encode_append hc, Utf8.pieces_encode_append, fieldsAux, isBlankPiece, if_pos hc,
      fieldsAux_eq_append, hclose]
    rfl

/-- What is solid in pieces is solid, whatever follows. -/
theorem solid_of_pieces (hpieces : pieces (w ++ rest) = ps ++ pieces rest)
    (hbytes : ps.flatMap Piece.bytes = w) (hps : ∀ p ∈ ps, isBlankPiece p = false) : Solid w := by
  rintro c hc ⟨front, back, rfl⟩
  have hlength := List.length_pos_iff.2 (Utf8.encode_ne_nil c)
  have hfound : pieces front ++ .char c :: pieces (back ++ rest) = ps ++ pieces rest := by
    rw [← hpieces, List.append_assoc, List.append_assoc, Utf8.pieces_append
      (Utf8.not_isTail_head c _), Utf8.pieces_encode_append]
  rcases List.append_eq_append_iff.1 hfound with ⟨qs, rfl, hqs⟩ | ⟨qs, hfront, -⟩
  · cases qs with
    | nil =>
      -- The pieces `ps` would end before the white space.
      have := congrArg List.length hbytes
      simp only [List.append_nil, Utf8.flatMap_pieces, List.length_append] at this
      omega
    | cons q qs =>
      obtain ⟨rfl, -⟩ := List.cons_eq_cons.1 hqs
      have hblank : isBlankPiece (.char c) = false := hps _ (by simp)
      exact Bool.eq_false_iff.1 hblank hc
  · have := congrArg List.length (Utf8.flatMap_pieces front)
    rw [hfront, List.flatMap_append, hbytes] at this
    simp only [List.length_append] at this
    omega

theorem piece_ne_nil (p : Piece) : p.bytes ≠ [] := by
  cases p with
  | char c => exact Utf8.encode_ne_nil c
  | stray b => exact List.cons_ne_nil b []

/-- A piece that is no white space is solid. -/
theorem solid_piece {p : Piece} (hp : pieces (p.bytes ++ rest) = p :: pieces rest)
    (hblank : isBlankPiece p = false) : Solid p.bytes := by
  have hpieces : pieces (p.bytes ++ rest) = [p] ++ pieces rest := hp
  refine solid_of_pieces hpieces (List.flatMap_singleton _ _) ?_
  exact List.forall_mem_singleton.2 hblank

/-- What is solid stays so if such a piece comes in front of it. -/
theorem Solid.piece_append {p : Piece}
    (hp : Utf8.pieces (p.bytes ++ (w ++ rest)) = p :: Utf8.pieces (w ++ rest))
    (hblank : isBlankPiece p = false) (hw : Solid w) (hrest : ∀ b ∈ rest.head?, ¬Utf8.isTail b) :
    Solid (p.bytes ++ w) := by
  have hpieces : Utf8.pieces ((p.bytes ++ w) ++ rest) =
      (p :: Utf8.pieces w) ++ Utf8.pieces rest := by
    rw [List.append_assoc, hp, Utf8.pieces_append hrest, List.cons_append]
  refine solid_of_pieces hpieces ?_ ?_
  · rw [List.flatMap_cons, Utf8.flatMap_pieces]
  · exact List.forall_mem_cons.2 ⟨hblank, fun _ => hw.pieces⟩

end CZero.Text
