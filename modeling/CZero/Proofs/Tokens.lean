import CZero.Proofs.CharArrays

/-!
# Tokens

The tokens of a string are its longest parts without white space, in order (`Text.Runs`);
every string has just one such list, the one that it is split into (`Text.runs_iff`).
White space is what characters are; bytes that are no characters belong to tokens.

Five functions are about tokens. They agree with each other (`tokens_agree`): the array of
the tokens is as long as their number, and what one function reads in a token alone, the
others read in the tokens of the string: all of them are integers if each of them is, and
then they are these integers. Only if there are 2 ^ 31 tokens or more, no array has room for
them, though all of them may be integers (`tokens_too_many`).
-/

namespace CZero

open CZero.Action

namespace Text

open Utf8 (Piece encode)

variable {c : Char} {ts : List Bytes} {text w : Bytes} {base : Nat}

/-! ## Runs without white space -/

/-- The byte strings `ts` are the longest parts of the text without white space, in order. -/
inductive Runs : List Bytes → Bytes → Prop
  | nil : Runs [] []
  | blank {c : Char} {ts : List Bytes} {text : Bytes} : isBlank c → Runs ts text →
    Runs ts (encode c ++ text)
  | run {w : Bytes} {ts : List Bytes} {text : Bytes} : w ≠ [] → Solid w → Parted text →
    Runs ts text → Runs (w :: ts) (w ++ text)

theorem Runs.fields_eq (h : Runs ts text) : fields text = ts := by
  induction h with
  | nil => rfl
  | blank hc _ ih => rw [fields_encode_append hc, ih]
  | run hne hw htext _ ih => rw [fields_append hw hne htext, ih]

/-- A piece that is no white space belongs to a run. -/
theorem Runs.exists_piece_append {p : Piece} (h : Runs ts text)
    (hp : Utf8.pieces (p.bytes ++ text) = p :: Utf8.pieces text)
    (hblank : isBlankPiece p = false) : ∃ ts', Runs ts' (p.bytes ++ text) := by
  have hne := piece_ne_nil p
  have hsolid := solid_piece hp hblank
  cases h with
  | nil => exact ⟨_, .run hne hsolid (.inl rfl) .nil⟩
  | blank hc h => exact ⟨_, .run hne hsolid (.inr ⟨_, _, hc, rfl⟩) (.blank hc h)⟩
  | @run w ts text hw hws htext h =>
    -- The run that follows is longer by the piece.
    have hlonger := hws.piece_append hp hblank htext.not_isTail_head
    rw [← List.append_assoc]
    exact ⟨_, .run (List.append_ne_nil_of_left_ne_nil hne w) hlonger htext h⟩

theorem exists_runs (text : Bytes) : ∃ ts, Runs ts text := by
  induction text using Utf8.piece_induction with
  | nil => exact ⟨_, .nil⟩
  | stray a rest hstray ih =>
    obtain ⟨ts, hrest⟩ := ih
    exact hrest.exists_piece_append (p := .stray a) (Utf8.pieces_stray hstray) rfl
  | char c rest ih =>
    obtain ⟨ts, hrest⟩ := ih
    by_cases hc : isBlank c
    · exact ⟨ts, .blank hc hrest⟩
    · exact hrest.exists_piece_append (p := .char c) (Utf8.pieces_encode_append c rest)
        (Bool.eq_false_iff.2 hc)

/-- The runs of a text are its fields. -/
theorem runs_iff : Runs ts text ↔ fields text = ts := by
  refine ⟨Runs.fields_eq, ?_⟩
  rintro rfl
  obtain ⟨ts, hts⟩ := exists_runs text
  rwa [hts.fields_eq]

/-- Runs have no bytes that the text does not have. -/
theorem Runs.subset (h : Runs ts text) (hw : w ∈ ts) : w ⊆ text := by
  induction h with
  | nil => cases hw
  | blank _ _ ih => exact List.Subset.trans (ih hw) (List.subset_append_right _ _)
  | run _ _ _ _ ih =>
    rcases List.mem_cons.1 hw with rfl | hw
    · exact List.subset_append_left _ _
    · exact List.Subset.trans (ih hw) (List.subset_append_right _ _)

/-! ## Integers in runs -/

section

variable {α β : Type} {f : α → Option β} {xs : List α}

theorem mapM_eq_some_iff {ys : List β} : xs.mapM f = some ys ↔ xs.map f = ys.map some := by
  induction xs generalizing ys with
  | nil => cases ys <;> simp
  | cons x xs ih =>
    rw [List.mapM_cons]
    cases hx : f x with
    | none => cases ys <;> simp [hx]
    | some y => cases hxs : xs.mapM f <;> cases ys <;> simp [hx, hxs, ← ih]

theorem isSome_mapM_iff : (xs.mapM f).isSome ↔ ∀ x ∈ xs, (f x).isSome := by
  induction xs with
  | nil => simp
  | cons x xs ih =>
    rw [List.mapM_cons, List.forall_mem_cons, ← ih]
    cases f x <;> cases xs.mapM f <;> simp

end

end Text

namespace Library

open Native

variable {s t u : Host} {a p r : Addr} {b : Int32} {text w : Bytes} {ts : List Bytes}

/-- The integer that a byte string spells in the base `b`. -/
def intIn (b : Int32) (w : Bytes) : Option Int32 :=
  Text.int32? b.toInt.toNat w

/-! ## Integers in cells -/

/-- The action gives back a cell with the integer, or the null pointer if there is none. -/
def GivesInt (x : Action Host Cell) (s : Host) : Option Int32 → Prop
  | some n => ∃ p t, x s = .ok (.ptr p) t ∧ p ≠ Addr.null ∧ t.heap.loadInt p = .ok n
  | none => x s = .ok .null s

section

variable {name : String} {f : Bytes → Nat → Action Host Cell}

/-- What a function does with the string at `p` in the base `b`. -/
theorem inBase_eq (hp : stringAt p s.heap = .ok text) (hb : 2 ≤ b ∧ b ≤ 36) :
    (stringArg [.ptr p, .int b] 0 >>= fun w => baseArg name [.ptr p, .int b] 1 >>= f w) s =
      f text b.toInt.toNat s := by
  have hbase : baseArg name [.ptr p, .int b] 1 s = .ok b.toInt.toNat s := by
    rw [baseArg, bind_of_ok (intArg_eq rfl), if_neg]
    · rfl
    · rw [not_or, Int32.not_lt, Int32.not_lt]
      exact hb
  rw [bind_of_ok (stringArg_eq rfl hp), bind_of_ok hbase]

/-- It refuses other bases. -/
theorem inBase_blames (hp : stringAt p s.heap = .ok text) (hb : ¬(2 ≤ b ∧ b ≤ 36)) :
    Blames (stringArg [.ptr p, .int b] 0 >>= fun w => baseArg name [.ptr p, .int b] 1 >>= f w)
      s := by
  have hbase : baseArg name [.ptr p, .int b] 1 s =
      .error (.fault (.contract name (.base b))) s := by
    rw [baseArg, bind_of_ok (intArg_eq rfl), if_pos]
    · rfl
    · rwa [not_and_or, Int32.not_le, Int32.not_le] at hb
  refine ⟨.contract name (.base b), rfl, ?_⟩
  rw [bind_of_ok (stringArg_eq rfl hp), bind_of_error hbase]

end

/-- An integer is put in a new cell. -/
theorem boxInt_givesInt (hs : s.heap.Unlimited) (n : Int32) :
    GivesInt (returning (Heap.boxInt n)) s (some n) := by
  have hplaced := hs.reached.placed
  have hbox := (Heap.boxInt_endsIn hplaced hs.size n).mono (fun _ _ => id)
    fun _ _ hrefused => Int.not_lt.2 hs.limit hrefused.2.2
  obtain ⟨_, k, ⟨rfl, -, hload⟩, hk⟩ := hbox.exists_eq_ok
  have haddr : (Heap.addrOf s.heap.size).toNat = s.heap.size :=
    Heap.toNat_addrOf (by have := hs.size; omega)
  refine ⟨_, ⟨k, s.console⟩, bind_of_ok (Host.onHeap_eq_ok.2 ⟨k, hk, rfl⟩), ?_, hload⟩
  exact Heap.ne_null_of_le (hplaced.reserved.trans_eq haddr.symm)

theorem parseInt_givesInt (hs : s.heap.Unlimited) (hp : stringAt p s.heap = .ok text)
    (hb : 2 ≤ b ∧ b ≤ 36) : GivesInt (parseInt [.ptr p, .int b]) s (intIn b text) := by
  rw [intIn]
  cases hn : Text.int32? b.toInt.toNat text with
  | none =>
    refine (inBase_eq hp hb).trans ?_
    simp only [hn]
    rfl
  | some n =>
    obtain ⟨q, t, hq, hne, hload⟩ := boxInt_givesInt hs n
    refine ⟨q, t, (inBase_eq hp hb).trans ?_, hne, hload⟩
    simp only [hn]
    exact hq

/-! ## The tokens of a string -/

theorem numTokens_eq (hp : stringAt p s.heap = .ok text) :
    numTokens [.ptr p] s = .ok (.int (Int32.ofNat (Text.fields text).length)) s := by
  rw [numTokens, bind_of_ok (stringArg_eq rfl hp)]
  rfl

/-- At `q` there is the address of a token, and what is read in the token alone. -/
def TokenAt (s : Host) (w : Bytes) (q : Addr) : Prop :=
  ∃ r, s.heap.loadPtr q = .ok r ∧ stringAt r s.heap = .ok w ∧
    ∀ b : Int32, 2 ≤ b ∧ b ≤ 36 → GivesInt (call "parse_int" [.ptr r, .int b]) s (intIn b w)

theorem parseTokens_hasArray (hs : s.heap.Unlimited) (hp : stringAt p s.heap = .ok text)
    (hlt : (Text.fields text).length < 2 ^ 31) :
    ∃ a t, parseTokens [.ptr p] s = .ok (.ptr a) t ∧
      t.heap.HasArray a (Text.fields text) fun w q => t.heap.size < 2 ^ 63 →
        ∃ r, t.heap.loadPtr q = .ok r ∧ t.heap.loadString r = .ok (w.before 0) := by
  rw [parseTokens, bind_of_ok (stringArg_eq rfl hp)]
  exact returning_hasArray
    (Heap.allocStrings_of_limit hs.reached.placed hs.size hs.limit (Text.fields text)) hlt

theorem parseTokens_fails (hs : s.heap.Unlimited) (hp : stringAt p s.heap = .ok text)
    (hge : 2 ^ 31 ≤ (Text.fields text).length) :
    ∃ e t, parseTokens [.ptr p] s = .error e t ∧ e.IsMemoryFault := by
  rw [parseTokens, bind_of_ok (stringArg_eq rfl hp)]
  exact returning_fails
    (Heap.allocStrings_of_limit hs.reached.placed hs.size hs.limit (Text.fields text)) hge

/-- The address of a token, once it is in an array, is there after all later calls. -/
theorem tokenAt_of_extends (hu : u.heap.Unlimited) (hextends : t.heap.Extends u.heap)
    (hw : 0 ∉ w) {q : Addr} (hr : t.heap.loadPtr q = .ok r)
    (hread : t.heap.loadString r = .ok (w.before 0)) : TokenAt u w q := by
  rw [Bytes.before_eq_self hw] at hread
  have hstring := stringAt_of_extends hextends (stringAt_of_loadString hread)
  exact ⟨r, hextends.loadPtr hr, hstring, fun b hb => parseInt_givesInt hu hstring hb⟩

theorem notMem_of_mem_fields (hp : stringAt p s.heap = .ok text) (hw : w ∈ Text.fields text) :
    0 ∉ w :=
  fun h => notMem_of_stringAt hp ((Text.runs_iff.2 rfl).subset hw h)

/-- The array of the tokens stays, and so do the tokens, whatever functions are called. -/
theorem tokens_stay (hs : s.heap.Unlimited) (hp : stringAt p s.heap = .ok text)
    (hlt : (Text.fields text).length < 2 ^ 31) :
    ∃ a t, call "parse_tokens" [.ptr p] s = .ok (.ptr a) t ∧
      ∀ u, Relation.ReflTransGen Called t u → u.heap.size < 2 ^ 63 →
        u.heap.HasArray a (Text.fields text) (TokenAt u) := by
  obtain ⟨a, t, hcall, harray⟩ := parseTokens_hasArray hs hp hlt
  change call "parse_tokens" [.ptr p] s = _ at hcall
  refine ⟨a, t, hcall, fun u hcalls hsize => ?_⟩
  have hsize' := Nat.lt_of_le_of_lt (evolves_of_calls hcalls).size_le hsize
  obtain ⟨ht, -⟩ := extend_of_ok rfl hcall hs hsize'
  obtain ⟨hu, hextends⟩ := extend_of_calls hcalls ht hsize
  refine harray.extends hextends fun w hw q hq => ?_
  obtain ⟨r, hr, hread⟩ := hq hsize'
  exact tokenAt_of_extends hu hextends (notMem_of_mem_fields hp hw) hr hread

/-! ## The integers of a string -/

theorem intTokens_eq (hp : stringAt p s.heap = .ok text) (hb : 2 ≤ b ∧ b ≤ 36) :
    intTokens [.ptr p, .int b] s = .ok (.ofBool (Text.integers? b.toInt.toNat text).isSome) s :=
  inBase_eq hp hb

theorem parseInts_of_some {ns : List Int32} (hp : stringAt p s.heap = .ok text)
    (hb : 2 ≤ b ∧ b ≤ 36) (hns : Text.integers? b.toInt.toNat text = some ns) :
    parseInts [.ptr p, .int b] s = returning (Heap.allocInts ns) s := by
  refine (inBase_eq hp hb).trans ?_
  simp only [hns]

theorem parseInts_of_none (hp : stringAt p s.heap = .ok text) (hb : 2 ≤ b ∧ b ≤ 36)
    (hns : Text.integers? b.toInt.toNat text = none) :
    Blames (parseInts [.ptr p, .int b]) s := by
  refine ⟨.contract "parse_ints" (.notIntegers text b.toInt.toNat), rfl, ?_⟩
  refine (inBase_eq hp hb).trans ?_
  simp only [hns]
  rfl

/-- In the base `b`, it is told of the string at `p` whether what is read in the tokens `ts` one
    by one are integers, and asking for them is refused if not. -/
structure IntsAgree (s : Host) (p : Addr) (b : Int32) (ts : List Bytes) : Prop where
  /-- The one function tells whether each of the tokens is an integer. -/
  check : ∃ n : Int32, call "int_tokens" [.ptr p, .int b] s = .ok (.int n) s ∧
    (n = 0 ∨ n = 1) ∧ (n = 1 ↔ ∀ w ∈ ts, (intIn b w).isSome)
  /-- If not, the other fails by the fault of the user. -/
  refused : call "int_tokens" [.ptr p, .int b] s ≠ .ok (.int 1) s →
    Blames (call "parse_ints" [.ptr p, .int b]) s

theorem intsAgree (hp : stringAt p s.heap = .ok text) (hb : 2 ≤ b ∧ b ≤ 36) :
    IntsAgree s p b (Text.fields text) := by
  have hcheck : call "int_tokens" [.ptr p, .int b] s = _ := intTokens_eq hp hb
  have hsome : (Text.integers? b.toInt.toNat text).isSome ↔
    ∀ w ∈ Text.fields text, (intIn b w).isSome := Text.isSome_mapM_iff
  cases hns : Text.integers? b.toInt.toNat text with
  | none =>
    rw [hns] at hcheck hsome
    exact ⟨⟨0, hcheck, .inl rfl, by simp [← hsome]⟩, fun _ => parseInts_of_none hp hb hns⟩
  | some ns =>
    rw [hns] at hcheck hsome
    exact ⟨⟨1, hcheck, .inr rfl, by simp [← hsome]⟩, fun h => absurd hcheck h⟩

section

variable (hs : s.heap.Unlimited) (hp : stringAt p s.heap = .ok text) (hb : 2 ≤ b ∧ b ≤ 36)
  (hcheck : call "int_tokens" [.ptr p, .int b] s = .ok (.int 1) s)
include hs hp hb hcheck

/-- If all tokens are integers, the array of these integers is built. -/
theorem parseInts_eq_returning : ∃ ns, (Text.fields text).map (intIn b) = ns.map some ∧
    ns.length = (Text.fields text).length ∧
    Heap.BuildsArray ns (fun n q l => l.loadInt q = .ok n) (Heap.allocInts ns s.heap) ∧
    parseInts [.ptr p, .int b] s = returning (Heap.allocInts ns) s := by
  cases hns : Text.integers? b.toInt.toNat text with
  | none =>
    have htokens : call "int_tokens" [.ptr p, .int b] s = _ := intTokens_eq hp hb
    rw [hns, hcheck] at htokens
    cases htokens
  | some ns =>
    have hvalues : (Text.fields text).map (intIn b) = ns.map some := Text.mapM_eq_some_iff.1 hns
    exact ⟨ns, hvalues, Text.length_of_integers? hns,
      Heap.allocInts_of_limit hs.reached.placed hs.size hs.limit ns, parseInts_of_some hp hb hns⟩

theorem parseInts_hasArray (hlt : (Text.fields text).length < 2 ^ 31) :
    ∃ ns a t, (Text.fields text).map (intIn b) = ns.map some ∧
      parseInts [.ptr p, .int b] s = .ok (.ptr a) t ∧
      t.heap.HasArray a ns fun n q => t.heap.loadInt q = .ok n := by
  obtain ⟨ns, hvalues, hlength, hbuilds, hcall⟩ := parseInts_eq_returning hs hp hb hcheck
  obtain ⟨a, t, hreturn, harray⟩ := returning_hasArray hbuilds (by omega)
  exact ⟨ns, a, t, hvalues, hcall.trans hreturn, harray⟩

theorem parseInts_fails (hge : 2 ^ 31 ≤ (Text.fields text).length) :
    ∃ e t, parseInts [.ptr p, .int b] s = .error e t ∧ e.IsMemoryFault := by
  obtain ⟨ns, -, hlength, hbuilds, hcall⟩ := parseInts_eq_returning hs hp hb hcheck
  rw [hcall]
  exact returning_fails hbuilds (by omega)

end

/-- The functions for tokens agree, in a heap without a limit. A string has just one list of
    longest parts without white space, its tokens.

    * If these are less than `2 ^ 31`, their number is given, and they are given as an array.
      Whatever functions are called afterwards, the addresses in it stay and so do the tokens
      there, and each of them can be read as an integer: in any base from 2 to 36, that gives a
      cell with its integer, or the null pointer if it is none.
    * If they are more, there is no array of them: that is a fault of memory.
    * In all these bases it is told whether every token is an integer. If not, asking for the
      integers is the fault of the user. If so, these integers are given as an array, or, if
      they are `2 ^ 31` or more, that is a fault of memory.
    * In any other base, both are the fault of the user. -/
theorem tokens_agree (hs : s.heap.Unlimited) (hp : stringAt p s.heap = .ok text) :
    ∃ ts, (∀ ts', Text.Runs ts' text ↔ ts' = ts) ∧
      (ts.length < 2 ^ 31 →
        (∃ n : Int32, n.toInt = ts.length ∧ call "num_tokens" [.ptr p] s = .ok (.int n) s) ∧
        ∃ a t, call "parse_tokens" [.ptr p] s = .ok (.ptr a) t ∧
          ∀ u, Relation.ReflTransGen Called t u → u.heap.size < 2 ^ 63 →
            u.heap.HasArray a ts (TokenAt u)) ∧
      (2 ^ 31 ≤ ts.length →
        ∃ e t, call "parse_tokens" [.ptr p] s = .error e t ∧ e.IsMemoryFault) ∧
      ∀ b : Int32, if 2 ≤ b ∧ b ≤ 36 then
          IntsAgree s p b ts ∧
          (call "int_tokens" [.ptr p, .int b] s = .ok (.int 1) s →
            (ts.length < 2 ^ 31 → ∃ ns a t, ts.map (intIn b) = ns.map some ∧
              call "parse_ints" [.ptr p, .int b] s = .ok (.ptr a) t ∧
              t.heap.HasArray a ns fun n q => t.heap.loadInt q = .ok n) ∧
            (2 ^ 31 ≤ ts.length →
              ∃ e t, call "parse_ints" [.ptr p, .int b] s = .error e t ∧ e.IsMemoryFault))
        else Blames (call "int_tokens" [.ptr p, .int b]) s ∧
          Blames (call "parse_ints" [.ptr p, .int b]) s := by
  refine ⟨Text.fields text, fun ts => ?_, fun hlt => ⟨?_, tokens_stay hs hp hlt⟩,
    parseTokens_fails hs hp, fun b => ?_⟩
  · rw [Text.runs_iff, eq_comm]
  · exact ⟨_, Int32.toInt_ofNat_of_lt hlt, numTokens_eq hp⟩
  · split
    · have hb : 2 ≤ b ∧ b ≤ 36 := ‹_›
      exact ⟨intsAgree hp hb, fun hcheck =>
        ⟨parseInts_hasArray hs hp hb hcheck, parseInts_fails hs hp hb hcheck⟩⟩
    · exact ⟨inBase_blames hp ‹_›, inBase_blames hp ‹_›⟩

/-- A heap with two strings: two numerals with a no-break space between them, and two letters
    with a byte between them that is a no-break space in other encodings. -/
def spacedStrings : Heap :=
  final (Heap.mapReadOnly (utf8 " -7\u00a01f" ++ [0, 0x61, 0xA0, 0x62, 0])) .empty

/-- The numerals are integers in base 16 and not in base 10; the letters are one token. -/
theorem tokens_agree_spacedStrings :
    spacedStrings.Unlimited ∧ stringAt 8 spacedStrings = .ok (utf8 " -7\u00a01f") ∧
      call "num_tokens" [.ptr 8] ⟨spacedStrings, {}⟩ = .ok (.int 2) ⟨spacedStrings, {}⟩ ∧
      (∃ a t, call "parse_ints" [.ptr 8, .int 16] ⟨spacedStrings, {}⟩ = .ok (.ptr a) t ∧
        t.heap.HasArray a [-7, 31] fun n q => t.heap.loadInt q = .ok n) ∧
      Blames (call "parse_ints" [.ptr 8, .int 10]) ⟨spacedStrings, {}⟩ ∧
      Blames (call "int_tokens" [.ptr 8, .int 37]) ⟨spacedStrings, {}⟩ ∧
      stringAt 16 spacedStrings = .ok [0x61, 0xA0, 0x62] ∧
      call "num_tokens" [.ptr 16] ⟨spacedStrings, {}⟩ = .ok (.int 1) ⟨spacedStrings, {}⟩ := by
  have hs : spacedStrings.Unlimited :=
    { reached := .mapReadOnly _ .empty, limit := by decide, size := by decide +kernel }
  have hp : stringAt 8 spacedStrings = .ok (utf8 " -7\u00a01f") := by decide +kernel
  have hq : stringAt 16 spacedStrings = .ok [0x61, 0xA0, 0x62] := by decide +kernel
  obtain ⟨ts, hruns, htokens, -, hints⟩ := tokens_agree (s := ⟨spacedStrings, {}⟩) hs hp
  obtain rfl : [[0x2D, 0x37], [0x31, 0x66]] = ts :=
    (hruns _).1 (Text.runs_iff.2 (by decide +kernel))
  obtain ⟨us, hruns', htokens', -, -⟩ := tokens_agree (s := ⟨spacedStrings, {}⟩) hs hq
  obtain rfl : [[0x61, 0xA0, 0x62]] = us := (hruns' _).1 (Text.runs_iff.2 (by decide +kernel))
  obtain ⟨⟨n, hn, hnumber⟩, -⟩ := htokens (by decide)
  obtain rfl : n = 2 := Int32.toInt_inj.1 hn
  obtain ⟨⟨m, hm, hnumber'⟩, -⟩ := htokens' (by decide)
  obtain rfl : m = 1 := Int32.toInt_inj.1 hm
  have h16 := hints 16
  have h10 := hints 10
  have h37 := hints 37
  rw [if_pos (by decide)] at h16 h10
  rw [if_neg (by decide)] at h37
  obtain ⟨h16, hvalues⟩ := h16
  refine ⟨hs, hp, hnumber, ?_, h10.1.refused ?_, h37.1, hq, hnumber'⟩
  · obtain ⟨k, hcheck, -, hk⟩ := h16.check
    obtain rfl : k = 1 := hk.2 (by decide +kernel)
    obtain ⟨ns, a, t, hns, hcall, harray⟩ := (hvalues hcheck).1 (by decide)
    obtain rfl : [-7, 31] = ns := by
      refine List.map_injective_iff.2 (Option.some_injective _) (Eq.trans ?_ hns)
      decide +kernel
    exact ⟨a, t, hcall, harray⟩
  · obtain ⟨k, hcheck, -, hk⟩ := h10.1.check
    intro hone
    cases hcheck.symm.trans hone
    exact absurd (hk.1 rfl) (by decide +kernel)

/-- The numeral 1, `n` times, with a blank behind each. -/
def ones (n : Nat) : Bytes :=
  (List.replicate n [0x31, 0x20]).flatten

theorem ones_succ (n : Nat) : ones (n + 1) = Utf8.encode '1' ++ (Utf8.encode ' ' ++ ones n) := by
  rw [ones, List.replicate_succ]
  rfl

theorem runs_ones (n : Nat) : Text.Runs (List.replicate n [0x31]) (ones n) := by
  induction n with
  | zero => exact .nil
  | succ n ih =>
    have hsolid : Text.Solid (Utf8.encode '1') :=
      Text.solid_piece (p := .char '1') (Utf8.pieces_encode_append '1' []) (by decide)
    rw [List.replicate_succ, ones_succ]
    exact .run (Utf8.encode_ne_nil '1') hsolid (.inr ⟨' ', ones n, by decide, rfl⟩)
      (.blank (by decide) ih)

theorem notMem_ones (n : Nat) : 0 ∉ ones n := by
  intro h
  obtain ⟨w, hw, hzero⟩ := List.mem_flatten.1 h
  rw [List.eq_of_mem_replicate hw] at hzero
  exact absurd hzero (by decide)

theorem length_ones (n : Nat) : (ones n).length = n * 2 := by
  induction n with
  | zero => rfl
  | succ n ih =>
    rw [ones_succ, List.length_append, List.length_append, ih]
    change 1 + (1 + n * 2) = (n + 1) * 2
    omega

/-- All tokens of a string can be integers, and yet there is no array of them: there are
    2 ^ 31, which is one more than an array has elements. -/
theorem tokens_too_many :
    (withString (ones (2 ^ 31))).Unlimited ∧
      stringAt 8 (withString (ones (2 ^ 31))) = .ok (ones (2 ^ 31)) ∧
      call "int_tokens" [.ptr 8, .int 10] ⟨withString (ones (2 ^ 31)), {}⟩ =
        .ok (.int 1) ⟨withString (ones (2 ^ 31)), {}⟩ ∧
      (∃ e t, call "parse_ints" [.ptr 8, .int 10] ⟨withString (ones (2 ^ 31)), {}⟩ =
        .error e t ∧ e.IsMemoryFault) ∧
      ∃ e t, call "parse_tokens" [.ptr 8] ⟨withString (ones (2 ^ 31)), {}⟩ =
        .error e t ∧ e.IsMemoryFault := by
  -- The number stays a variable, lest the tokens are counted one by one.
  obtain ⟨n, hn⟩ : ∃ n : Nat, n = 2 ^ 31 := ⟨_, rfl⟩
  rw [← hn]
  have hp := stringAt_withString (notMem_ones n)
  have hs : (withString (ones n)).Unlimited := unlimited_withString (by rw [length_ones]; omega)
  have hfields : Text.fields (ones n) = List.replicate n [0x31] := (runs_ones n).fields_eq
  have hlength : 2 ^ 31 ≤ (Text.fields (ones n)).length := by
    rw [hfields, List.length_replicate, hn]
  have hb : 2 ≤ (10 : Int32) ∧ (10 : Int32) ≤ 36 := by decide
  obtain ⟨k, hcheck, -, hk⟩ := (intsAgree (s := ⟨_, {}⟩) hp hb).check
  obtain rfl : k = 1 := by
    rw [hk, hfields]
    intro w hw
    rw [List.eq_of_mem_replicate hw]
    decide +kernel
  exact ⟨hs, hp, hcheck, parseInts_fails (s := ⟨_, {}⟩) hs hp hb hcheck hlength,
    parseTokens_fails (s := ⟨_, {}⟩) hs hp hlength⟩

end Library

end CZero
