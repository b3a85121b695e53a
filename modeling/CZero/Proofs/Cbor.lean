import CZero.Cbor.Item
import CZero.Proofs.Program.Binary

/-!
# Items are read back

A CBOR item is read back from its bytes, whatever comes behind them, if it is `Plain`:
it has no tags and no floating-point numbers, its texts are in one chunk, its numbers
and lengths have room in a head, and it is neither too wide nor too deep for the
reader. The bound on the nesting that the reader has been given is no hindrance, since
every level of an item takes a byte of its own (`item_encode`).

The bytes are written into a buffer. `Item.encode` does not show it, and `encode_array`
and its like say what an item looks like.
-/

namespace CZero.Cbor

open Binary (highBytes)

/-! ## Heads -/

/-- The bytes of a head. -/
def headBytes (major n : Nat) : Bytes :=
  (pushHead #[] major n).toList

theorem toList_pushNumber (out : Array UInt8) (w n : Nat) :
    (pushNumber out w n).toList = out.toList ++ highBytes w n := by
  induction w generalizing n with
  | zero => simp [pushNumber, highBytes]
  | succ w ih => simp [pushNumber, highBytes, ih]

theorem toList_pushHead (out : Array UInt8) (major n : Nat) :
    (pushHead out major n).toList = out.toList ++ headBytes major n := by
  simp only [headBytes, pushHead]
  split_ifs <;> simp [toList_pushNumber]

/-- A head is a byte, and the number behind it if it has no room in that byte. -/
theorem headBytes_eq {n : Nat} (major : Nat) (hn : n < 2 ^ 64) :
    ∃ info w, headBytes major n = UInt8.ofNat (major * 32 + info) :: highBytes w n ∧
      ((info = n ∧ w = 0 ∧ n < 24) ∨
        (24 ≤ info ∧ info < 28 ∧ argLength? info = some w ∧ 24 ≤ n ∧ n < 256 ^ w)) := by
  simp only [headBytes, pushHead]
  split_ifs with h0 h1 h2 h4
  · exact ⟨n, 0, rfl, .inl ⟨rfl, rfl, h0⟩⟩
  · exact ⟨24, 1, by rw [toList_pushNumber]; rfl, .inr ⟨by decide, by decide, rfl, by omega, h1⟩⟩
  · exact ⟨25, 2, by rw [toList_pushNumber]; rfl, .inr ⟨by decide, by decide, rfl, by omega, h2⟩⟩
  · exact ⟨26, 4, by rw [toList_pushNumber]; rfl, .inr ⟨by decide, by decide, rfl, by omega, h4⟩⟩
  · exact ⟨27, 8, by rw [toList_pushNumber]; rfl, .inr ⟨by decide, by decide, rfl, by omega, hn⟩⟩

theorem takeBytes_append (front rest : Bytes) :
    takeBytes front.length (front ++ rest) = some (front, rest) := by
  simp [takeBytes]

/-- A head is read back. Of the simple values, only those in one byte are. -/
theorem head_headBytes {n : Nat} (major : Nat) (hmajor : major < 8) (hn : n < 2 ^ 64)
    (hsimple : major = 7 → n < 24) (rest : Bytes) :
    ∃ info, info ≠ 31 ∧ (n < 24 → info = n) ∧
      head (headBytes major n ++ rest) = some (⟨major, info, n⟩, rest) := by
  obtain ⟨info, w, hbytes, hinfo⟩ := headBytes_eq major hn
  -- The first byte holds the major type and the information next to each other.
  have hlead : (UInt8.ofNat (major * 32 + info)).toNat = major * 32 + info :=
    UInt8.toNat_ofNat_of_lt' (by rw [UInt8.size]; omega)
  have hdiv : (major * 32 + info) / 32 = major := by omega
  have hmod : (major * 32 + info) % 32 = info := by omega
  refine ⟨info, by omega, fun hlt => by omega, ?_⟩
  rw [hbytes, List.cons_append, head, hlead, hdiv, hmod]
  rcases hinfo with ⟨rfl, rfl, hlt⟩ | ⟨hge, hlt, hw, hn24, hroom⟩
  · simp [hlt, highBytes]
  · -- The number is in the bytes behind the first one.
    have htake := takeBytes_append (highBytes w n) rest
    have harg : ofHighBytes (highBytes w n) = n := Binary.ofHighBytes_highBytes hroom
    rw [Binary.length_highBytes] at htake
    simp only [hw, htake, harg]
    rw [if_neg (by omega), if_neg (by omega), if_neg]
    rintro ⟨h7, -, -⟩
    exact absurd (hsimple h7) (by omega)

theorem headBytes_ne_nil (major n : Nat) : headBytes major n ≠ [] := by
  simp only [headBytes, pushHead]
  split_ifs <;> simp [toList_pushNumber]

/-! ## Items -/

mutual

theorem Item.toList_write (out : Array UInt8) : ∀ x : Item,
    (x.write out).toList = out.toList ++ x.encode
  | .uint n | .nint n | .simple n => by
    rw [encode, write, write, toList_pushHead]
    rfl
  | .bytes b => by
    rw [encode, write, write, Array.toList_append, Array.toList_append, toList_pushHead,
      toList_pushHead, List.append_assoc]
    rfl
  | .text cs => by
    rw [encode, write, write, Array.toList_append, Array.toList_append, toList_pushHead,
      toList_pushHead, List.append_assoc]
    rfl
  | .array items => by
    rw [encode, write, write, toList_writeAll, toList_writeAll, toList_pushHead, List.append_assoc]
    rfl
  | .map entries => by
    rw [encode, write, write, toList_writeAll, toList_writeAll, toList_pushHead, List.append_assoc]
    rfl
  | .tag n x => by
    rw [encode, write, write, toList_write _ x, toList_write _ x, toList_pushHead,
      List.append_assoc]
    rfl
  | .float w n => by
    simp [encode, write, toList_pushNumber]

theorem Item.toList_writeAll (out : Array UInt8) : ∀ xs : List Item,
    (Item.writeAll out xs).toList = out.toList ++ xs.flatMap Item.encode
  | [] => by simp [writeAll]
  | x :: xs => by
    rw [writeAll, toList_writeAll _ xs, toList_write _ x, List.flatMap_cons, List.append_assoc]

end

theorem encode_uint (n : Nat) : (Item.uint n).encode = headBytes 0 n := by
  rw [Item.encode, Item.write, headBytes]

theorem encode_nint (n : Nat) : (Item.nint n).encode = headBytes 1 n := by
  rw [Item.encode, Item.write, headBytes]

theorem encode_bytes (b : Bytes) : (Item.bytes b).encode = headBytes 2 b.length ++ b := by
  rw [Item.encode, Item.write, Array.toList_append, headBytes]

theorem encode_text (chunks : List Bytes) :
    (Item.text chunks).encode = headBytes 3 chunks.flatten.length ++ chunks.flatten := by
  rw [Item.encode, Item.write, Array.toList_append, headBytes]

theorem encode_array (items : List Item) :
    (Item.array items).encode = headBytes 4 items.length ++ items.flatMap Item.encode := by
  rw [Item.encode, Item.write, Item.toList_writeAll, headBytes]

theorem encode_map (entries : List Item) :
    (Item.map entries).encode =
      headBytes 5 (entries.length / 2) ++ entries.flatMap Item.encode := by
  rw [Item.encode, Item.write, Item.toList_writeAll, headBytes]

theorem encode_simple (n : Nat) : (Item.simple n).encode = headBytes 7 n := by
  rw [Item.encode, Item.write, headBytes]

/-! ## Reading back -/

/-- An item that is read back on the level `depth`. -/
inductive Item.Plain : Nat → Item → Prop
  | uint {depth n : Nat} (h : n < 2 ^ 64) : Plain depth (.uint n)
  | nint {depth n : Nat} (h : n < 2 ^ 64) : Plain depth (.nint n)
  | bytes {depth : Nat} {b : Bytes} (h : b.length < 2 ^ 64) : Plain depth (.bytes b)
  | text {depth : Nat} {b : Bytes} (h : b.length < 2 ^ 64) : Plain depth (.text [b])
  | array {depth : Nat} {items : List Item} (hdepth : depth < maxDepth)
      (hsize : items.length ≤ maxElements) (hitems : ∀ x ∈ items, Plain (depth + 1) x) :
      Plain depth (.array items)
  | map {depth n : Nat} {entries : List Item} (hdepth : depth < maxDepth)
      (hsize : entries.length = 2 * n) (hn : n ≤ maxElements)
      (hentries : ∀ x ∈ entries, Plain (depth + 1) x) : Plain depth (.map entries)
  | simple {depth n : Nat} (h : n < 24) : Plain depth (.simple n)

theorem counted_flatMap {item : Reader Item} (xs : List Item)
    (hitem : ∀ x ∈ xs, ∀ rest, item (x.encode ++ rest) = some (x, rest)) (acc : List Item)
    (rest : Bytes) :
    counted item acc xs.length (xs.flatMap Item.encode ++ rest) =
      some (acc.reverse ++ xs, rest) := by
  induction xs generalizing acc with
  | nil => simp [counted]
  | cons x xs ih =>
    obtain ⟨hx, hxs⟩ := List.forall_mem_cons.1 hitem
    rw [List.flatMap_cons, List.append_assoc, List.length_cons, counted, hx]
    simp [ih hxs]

theorem stringChunks_append {major info : Nat} (hinfo : info ≠ 31) (b rest : Bytes) :
    stringChunks ⟨major, info, b.length⟩ (b ++ rest) = some ([b], rest) := by
  rw [stringChunks, if_neg hinfo, takeBytes_append, Option.map_some]

theorem elements_flatMap {item : Reader Item} {major info n width : Nat} {xs : List Item}
    (hinfo : info ≠ 31) (hsize : xs.length = width * n) (hn : n ≤ maxElements)
    (hitem : ∀ x ∈ xs, ∀ rest, item (x.encode ++ rest) = some (x, rest)) (rest : Bytes) :
    elements item ⟨major, info, n⟩ width (xs.flatMap Item.encode ++ rest) = some (xs, rest) := by
  rw [elements, if_neg hinfo, if_neg (Nat.not_lt.2 hn), ← hsize, counted_flatMap xs hitem]
  rfl

/-- The bytes of an element are fewer than those of its array or map, which has a head. -/
theorem length_encode_lt {major n : Nat} {x : Item} {xs : List Item} (hx : x ∈ xs) :
    x.encode.length < (headBytes major n ++ xs.flatMap Item.encode).length := by
  have hhead := List.length_pos_iff.2 (headBytes_ne_nil major n)
  obtain ⟨before, after, rfl⟩ := List.append_of_mem hx
  simp only [List.flatMap_append, List.flatMap_cons, List.length_append]
  omega

/-- What is left of the bound on the nesting is enough for the elements of an array or a
    map. -/
theorem item_element {depth fuel major n : Nat} {xs : List Item}
    (hfuel : (headBytes major n ++ xs.flatMap Item.encode).length ≤ fuel)
    (hread : ∀ x ∈ xs, ∀ {fuel}, x.encode.length ≤ fuel → ∀ rest,
      item (fuel + 1) depth (x.encode ++ rest) = some (x, rest)) :
    ∀ x ∈ xs, ∀ rest, item fuel depth (x.encode ++ rest) = some (x, rest) := by
  intro x hx rest
  have hlt := Nat.lt_of_lt_of_le (length_encode_lt hx) hfuel
  obtain ⟨k, rfl⟩ := Nat.exists_eq_succ_of_ne_zero (Nat.ne_zero_of_lt hlt)
  exact hread x hx (Nat.le_of_lt_succ hlt) rest

/-- A plain item is read back from its bytes. -/
theorem item_encode {depth : Nat} {x : Item} (h : x.Plain depth) {fuel : Nat}
    (hfuel : x.encode.length ≤ fuel) (rest : Bytes) :
    item (fuel + 1) depth (x.encode ++ rest) = some (x, rest) := by
  induction h generalizing fuel rest with
  | @uint depth n hn =>
    obtain ⟨info, -, -, hhead⟩ := head_headBytes 0 (by decide) hn nofun rest
    simp only [encode_uint, item, hhead]
  | @nint depth n hn =>
    obtain ⟨info, -, -, hhead⟩ := head_headBytes 1 (by decide) hn nofun rest
    simp only [encode_nint, item, hhead]
  | @bytes depth b hb =>
    obtain ⟨info, hinfo, -, hhead⟩ := head_headBytes 2 (by decide) hb nofun (b ++ rest)
    simp only [encode_bytes, List.append_assoc, item, hhead, stringChunks_append hinfo,
      Option.map_some, List.flatten_singleton]
  | @text depth b hb =>
    obtain ⟨info, hinfo, -, hhead⟩ := head_headBytes 3 (by decide) hb nofun (b ++ rest)
    simp only [encode_text, List.flatten_singleton, List.append_assoc, item, hhead,
      stringChunks_append hinfo, Option.map_some]
  | @array depth items hdepth hsize hitems ih =>
    obtain ⟨info, hinfo, -, hhead⟩ := head_headBytes 4 (n := items.length) (by decide)
      (Nat.lt_of_le_of_lt hsize (by decide)) nofun (items.flatMap Item.encode ++ rest)
    rw [encode_array, List.append_assoc]
    simp only [item, hhead, if_neg (Nat.not_lt.2 hdepth)]
    rw [encode_array] at hfuel
    rw [elements_flatMap hinfo (Nat.one_mul _).symm hsize (item_element hfuel ih), Option.map_some]
  | @map depth n entries hdepth hsize hn hentries ih =>
    obtain ⟨info, hinfo, -, hhead⟩ := head_headBytes 5 (n := n) (by decide)
      (Nat.lt_of_le_of_lt hn (by decide)) nofun (entries.flatMap Item.encode ++ rest)
    rw [encode_map, hsize, Nat.mul_div_cancel_left n (by decide), List.append_assoc]
    simp only [item, hhead, if_neg (Nat.not_lt.2 hdepth)]
    rw [encode_map] at hfuel
    rw [elements_flatMap hinfo hsize hn (item_element hfuel ih), Option.map_some]
  | @simple depth n hn =>
    obtain ⟨info, -, hlow, hhead⟩ := head_headBytes 7 (by decide) (by omega)
      (fun _ => hn) rest
    simp only [encode_simple, item, hhead, hlow hn]
    -- An additional information below 24 announces no floating-point number.
    split
    · omega
    · omega
    · omega
    · rfl

theorem decode?_encode {x : Item} (h : x.Plain 0) : Item.decode? x.encode = some x := by
  have hitem := item_encode h (Nat.le_refl _) []
  rw [List.append_nil] at hitem
  rw [Item.decode?, hitem]

end CZero.Cbor
