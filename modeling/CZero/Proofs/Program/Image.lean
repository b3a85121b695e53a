import CZero.Program.Image
import CZero.Proofs.Cbor

/-!
# Images are read back

The image of a program is read back as the same program, with what it leaves out still
left out. This takes two steps. The item of a program is plain if the binary layout has
room for the program (`plain_ofProgram`), so it is read back from its bytes. And the
program is read back from its item, whatever its size (`toProgram?_ofProgram`): the keys
of an item are the names that the reader looks for.
-/

namespace CZero

/-- Some bytes are read as the program, with what it leaves out made empty. -/
def Program.Readable (p : Program) : Prop :=
  ∃ d, Binary.read d = .ok p.filled

theorem Program.readable_iff {p : Program} : p.Readable ↔ Binary.Carries p ∧ p.WellFormed := by
  simp only [Readable, Binary.read_eq_ok_iff, filled_filled, Binary.carries_filled,
    wellFormed_filled, true_and, exists_eq_left]

namespace Image

open Cbor

/-! ## From programs to items and back -/

theorem word?_uint (w : UInt16) : (Item.uint w.toNat).word? = some w := by
  have hw := w.toNat_lt
  have hrange : (0 : Int) ≤ w.toNat ∧ (w.toNat : Int) ≤ 65535 := by omega
  simp only [Item.word?, Item.number?, Item.content?]
  rw [Option.filter_some_pos (by simpa using hrange)]
  simp

theorem toInt32?_ofInt (n : Int32) : toInt32? (.ofInt n.toInt) = some n := by
  have hcontent : (Item.ofInt n.toInt).content? = some (.int n.toInt) := by
    cases n.toInt with
    | ofNat k => rfl
    | negSucc k => simp [Item.ofInt, Item.content?, Int.negSucc_eq]; omega
  have hlo := n.le_toInt
  have hhi := n.toInt_lt
  -- The reader refuses what has no room in 32 bits.
  have hrange : -0x80000000 ≤ n.toInt ∧ n.toInt ≤ 0x7FFFFFFF := by omega
  simp only [toInt32?, Item.number?, hcontent]
  rw [Option.filter_some_pos (by simpa using hrange)]
  simp

theorem bytes?_ofBytes (b : Option (Array UInt8)) : (ofBytes b).bytes? = some b := by
  cases b with
  | none => rfl
  | some b => simp [ofBytes, Item.bytes?, Item.content?]

/-- A list is read back if its elements are. -/
theorem list?_ofList {α : Type} {item : α → Item} {read? : Item → Option α}
    (h : ∀ a, read? (item a) = some a) (as : Option (Array α)) :
    (ofList item as).list? read? = some as := by
  cases as with
  | none => rfl
  | some as =>
    have hread : (as.toList.map item).mapM read? = some as.toList := by
      rw [List.mapM_map]
      induction as.toList with
      | nil => rfl
      | cons a as ih => simp [h, ih]
    simp only [ofList, Item.list?, Item.content?, hread, Option.map_some, Array.toArray_toList]

theorem fields?_ofFunction (f : Function) :
    (ofFunction f).fields? ["args", "vars", "code"] =
      some [("vars", .uint f.vars.toNat), ("code", ofBytes f.body), ("args", .uint f.args.toNat)] :=
  rfl

theorem toFunction?_ofFunction (f : Function) : toFunction? (ofFunction f) = some f := by
  rw [toFunction?, fields?_ofFunction]
  simp [field?, List.lookup_cons, word?_uint, bytes?_ofBytes]

theorem fields?_ofNative (n : NativeRef) :
    (ofNative n).fields? ["args", "index"] =
      some [("index", .uint n.slot.toNat), ("args", .uint n.args.toNat)] :=
  rfl

theorem toNative?_ofNative (n : NativeRef) : toNative? (ofNative n) = some n := by
  rw [toNative?, fields?_ofNative]
  simp [field?, List.lookup_cons, word?_uint]

theorem fields?_ofProgram (p : Program) :
    (ofProgram p).fields? ["version", "arch", "ints", "strings", "functions", "natives"] =
      some [("functions", ofList ofFunction p.functions), ("version", .uint p.version.toNat),
        ("strings", ofBytes p.strings), ("natives", ofList ofNative p.natives),
        ("ints", ofList (fun n => .ofInt n.toInt) p.ints), ("arch", .uint p.arch.toNat)] :=
  rfl

/-- A program is read back from its item. -/
theorem toProgram?_ofProgram (p : Program) : toProgram? (ofProgram p) = some p := by
  rw [toProgram?, fields?_ofProgram]
  simp [field?, List.lookup_cons, word?_uint, bytes?_ofBytes, list?_ofList toInt32?_ofInt,
    list?_ofList toNative?_ofNative, list?_ofList toFunction?_ofFunction]

/-! ## From items to bytes and back -/

theorem plain_word {depth : Nat} (w : UInt16) : (Item.uint w.toNat).Plain depth :=
  .uint (Nat.lt_trans w.toNat_lt (by decide))

theorem plain_ofInt {depth : Nat} (n : Int32) : (Item.ofInt n.toInt).Plain depth := by
  have hlo := n.le_toInt
  have hhi := n.toInt_lt
  cases hn : n.toInt with
  | ofNat k =>
    rw [Int.ofNat_eq_natCast] at hn
    exact .uint (by omega)
  | negSucc k => exact .nint (by omega)

theorem plain_ofBytes {depth : Nat} {b : Option (Array UInt8)} (h : (b.getD #[]).size ≤ 65535) :
    (ofBytes b).Plain depth := by
  cases b with
  | none => exact .simple (by decide)
  | some b => exact .bytes (Nat.lt_of_le_of_lt h (by decide))

theorem plain_ofList {α : Type} {depth : Nat} {item : α → Item} {as : Option (Array α)}
    (hdepth : depth < maxDepth) (hsize : (as.getD #[]).size ≤ 65535)
    (h : ∀ a ∈ (as.getD #[]).toList, (item a).Plain (depth + 1)) :
    (ofList item as).Plain depth := by
  cases as with
  | none => exact .simple (by decide)
  | some as =>
    refine .array hdepth ?_ fun x hx => ?_
    · rw [List.length_map]
      exact Nat.le_trans hsize (by decide)
    · obtain ⟨a, ha, rfl⟩ := List.mem_map.1 hx
      exact h a ha

/-- A record is plain if its fields are. -/
theorem plain_record {depth n : Nat} (fields : List (String × Item)) (hdepth : depth < maxDepth)
    (hsize : fields.length = n) (hn : n ≤ maxElements)
    (h : ∀ f ∈ fields, (utf8 f.1).length < 2 ^ 64 ∧ f.2.Plain (depth + 1)) :
    (Item.map (fields.flatMap fun f => [.key f.1, f.2])).Plain depth := by
  refine .map hdepth ?_ hn fun x hx => ?_
  · simp [List.length_flatMap, hsize, Nat.mul_comm]
  · obtain ⟨f, hf, hx⟩ := List.mem_flatMap.1 hx
    obtain ⟨hkey, hvalue⟩ := h f hf
    rcases List.mem_pair.1 hx with rfl | rfl
    · exact .text hkey
    · exact hvalue

theorem plain_ofFunction {depth : Nat} (hdepth : depth < maxDepth) {f : Function}
    (h : f.code.size ≤ 65535) : (ofFunction f).Plain depth := by
  refine plain_record (n := 3) [("args", .uint f.args.toNat), ("code", ofBytes f.body),
    ("vars", .uint f.vars.toNat)] hdepth rfl (by decide) ?_
  simp only [List.forall_mem_cons]
  exact ⟨⟨by decide, plain_word _⟩, ⟨by decide, plain_ofBytes h⟩, ⟨by decide, plain_word _⟩, nofun⟩

theorem plain_ofNative {depth : Nat} (hdepth : depth < maxDepth) (n : NativeRef) :
    (ofNative n).Plain depth := by
  refine plain_record (n := 2) [("args", .uint n.args.toNat), ("index", .uint n.slot.toNat)]
    hdepth rfl (by decide) ?_
  simp only [List.forall_mem_cons]
  exact ⟨⟨by decide, plain_word _⟩, ⟨by decide, plain_word _⟩, nofun⟩

theorem plain_ofProgram {p : Program} (h : Binary.Carries p) : (ofProgram p).Plain 0 := by
  -- The fields stand in the order of the image, shorter keys first.
  refine plain_record (n := 6) [("arch", .uint p.arch.toNat),
    ("ints", ofList (fun n => .ofInt n.toInt) p.ints), ("natives", ofList ofNative p.natives),
    ("strings", ofBytes p.strings), ("version", .uint p.version.toNat),
    ("functions", ofList ofFunction p.functions)] (by decide : 0 < maxDepth) rfl (by decide) ?_
  simp only [List.forall_mem_cons]
  refine ⟨⟨by decide, plain_word _⟩, ⟨by decide, ?_⟩, ⟨by decide, ?_⟩,
    ⟨by decide, plain_ofBytes h.strings⟩, ⟨by decide, plain_word _⟩, ⟨by decide, ?_⟩, nofun⟩
  · exact plain_ofList (by decide) h.ints fun n _ => plain_ofInt n
  · exact plain_ofList (by decide) h.natives fun n _ => plain_ofNative (by decide) n
  · exact plain_ofList (by decide) h.functions fun f hf =>
      plain_ofFunction (by decide) (h.code f hf)

/-- A codec gives every program back that can be read. -/
def Codec.RoundTrips (c : Codec) : Prop :=
  ∀ p : Program, p.Readable → c.unmarshal (c.marshal p) = some p

/-- So does the check of what it gives. -/
theorem Codec.RoundTrips.decode_encode {c : Codec} (hc : c.RoundTrips) {p : Program}
    (h : p.Readable) : c.decode (c.encode p) = .ok p := by
  rw [Codec.decode, Codec.encode, hc p h]
  simp only [Program.defect?_eq_none_iff.2 (Program.readable_iff.1 h).2]

theorem cbor_roundTrips : cbor.RoundTrips := by
  intro p h
  change (Item.decode? (ofProgram p).encode).bind toProgram? = some p
  rw [decode?_encode (plain_ofProgram (Program.readable_iff.1 h).1), Option.bind_some,
    toProgram?_ofProgram]

theorem decode_encode {p : Program} (h : p.Readable) : decode (encode p) = .ok p :=
  cbor_roundTrips.decode_encode h

/-- A program that can be read, or that leaves out pools or code which are empty in such a
    program, is read back from its image as it is: what it leaves out is left out, and
    what is empty is empty. So its image is that of no other such program, and what was
    read back has the same image again. -/
theorem image_roundTrip (p : Program) (h : p.Readable) :
    decode (encode p) = .ok p ∧
      (∀ q : Program, q.Readable → encode q = encode p → q = p) ∧
      ∀ q, decode (encode p) = .ok q → encode q = encode p := by
  refine ⟨decode_encode h, fun q hq heq => ?_, fun q hq => ?_⟩
  · -- Both are read back from the same bytes.
    have hback := decode_encode hq
    rw [heq, decode_encode h] at hback
    exact (Except.ok.inj hback).symm
  · rw [decode_encode h] at hq
    rw [Except.ok.inj hq]

/-- A program that leaves out its strings and the code of its function, and has no
    integers and no native functions. -/
def sparse : Program where
  version := 4
  arch := 1
  ints := some #[]
  functions := some #[{ vars := 1 }]
  natives := some #[]

theorem image_roundTrip_sparse :
    decode (encode sparse) = .ok sparse ∧ encode sparse ≠ encode sparse.filled := by
  have hcarries : Binary.Carries sparse :=
    ⟨rfl, by decide, by decide, by decide, by decide, by decide, by decide⟩
  have hread : sparse.Readable := Program.readable_iff.2 ⟨hcarries, by decide, by decide⟩
  have hfilled : sparse.filled.Readable := by
    rw [Program.Readable, Program.filled_filled]
    exact hread
  obtain ⟨hback, hinj, -⟩ := image_roundTrip sparse hread
  refine ⟨hback, fun heq => ?_⟩
  -- The image keeps the strings that are left out apart from those that are empty.
  have hstrings : some #[] = none := congrArg Program.strings (hinj sparse.filled hfilled heq.symm)
  cases hstrings

end Image

end CZero
