import CZero.Instr
import CZero.Proofs.Action

/-!
# Frames under their operations

No operation on a frame changes which function it activates, its code, or the number
of its variables (`Frame.SameBody`), and it fails by a fault only.

Reading an operand needs an address that is not negative; from such an address the
reads are given in full (`readU8_eq`, `readU16_eq`). Decoding is then an opcode and
the operand it asks for (`readOperands_shape`): it moves the address and nothing else
(`decode_onlyMoves`), and only if the instruction is there to its end.
-/

namespace CZero

namespace Frame

open CZero.Action

/-- `g` activates the same function as `f`, with as many variables. -/
structure SameBody (f g : Frame) : Prop where
  func : g.func = f.func
  code : g.code = f.code
  vars : g.locals.size = f.locals.size

instance : IsPreorder Frame SameBody where
  refl _ := ⟨rfl, rfl, rfl⟩
  trans _ _ _ h h' :=
    ⟨h'.func.trans h.func, h'.code.trans h.code, h'.vars.trans h.vars⟩

/-! ## The operand stack -/

theorem push_within (c : Cell) : Within SameBody Failure.IsFault (push c) where
  ok := by
    rintro f _ _ ⟨⟩
    exact ⟨rfl, rfl, rfl⟩
  error := by
    rintro _ _ _ ⟨⟩

theorem pop_eq_ok {f g : Frame} {c : Cell} (h : pop f = .ok c g) :
    f.stack = c :: g.stack ∧ g = { f with stack := g.stack } := by
  unfold pop at h
  split at h <;> cases h
  exact ⟨‹_›, rfl⟩

theorem pop_within : Within SameBody Failure.IsFault pop where
  ok := by
    intro f c g h
    rw [(pop_eq_ok h).2]
    exact ⟨rfl, rfl, rfl⟩
  error := by
    intro f e g h
    unfold pop at h
    split at h <;> cases h
    exact ⟨refl _, trivial⟩

theorem popInt_within : Within SameBody Failure.IsFault popInt :=
  pop_within.bind fun c => within_ofResult c.asInt_errs

theorem popPtr_within : Within SameBody Failure.IsFault popPtr :=
  pop_within.bind fun c => within_ofResult c.asPtr_errs

theorem popList_within (acc : List Cell) (n : Nat) :
    Within SameBody Failure.IsFault (popList acc n) := by
  induction n generalizing acc with
  | zero => exact within_pure acc
  | succ n ih => exact pop_within.bind fun c => ih (c :: acc)

theorem popArgs_within (n : Nat) : Within SameBody Failure.IsFault (popArgs n) :=
  popList_within [] n

/-- Taking the cells `xs` off the top of the stack. -/
theorem popList_append (acc xs rest : List Cell) (f : Frame) (hf : f.stack = xs ++ rest) :
    popList acc xs.length f = .ok (xs.reverse ++ acc) { f with stack := rest } := by
  -- Cells go before `acc` as they come off, so the top one ends up last.
  induction xs generalizing acc f with
  | nil =>
    obtain rfl : f.stack = rest := hf
    rfl
  | cons x xs ih =>
    have hpop : pop f = .ok x { f with stack := xs ++ rest } := by
      rw [pop, hf]
      rfl
    rw [List.length_cons, popList, bind_of_ok hpop, ih (x :: acc) _ rfl, List.reverse_cons,
      List.append_assoc]
    rfl

/-- The arguments come off the stack in the order in which they were pushed. -/
theorem popArgs_of_stack {f : Frame} {args rest : List Cell} (hf : f.stack = args.reverse ++ rest) :
    popArgs args.length f = .ok args { f with stack := rest } := by
  have h := popList_append [] args.reverse rest f hf
  rwa [List.length_reverse, List.reverse_reverse, List.append_nil] at h

/-- Only a stack with `n` cells gives `n` arguments. -/
theorem popList_eq_ok {acc args : List Cell} {n : Nat} {f g : Frame}
    (h : popList acc n f = .ok args g) :
    ∃ xs, xs.length = n ∧ f.stack = xs ++ g.stack ∧ args = xs.reverse ++ acc ∧
      g = { f with stack := g.stack } := by
  induction n generalizing acc f with
  | zero =>
    cases h
    exact ⟨[], rfl, rfl, rfl, rfl⟩
  | succ n ih =>
    obtain ⟨x, f', hpop, hrest⟩ := bind_eq_ok.1 h
    obtain ⟨xs, hlen, hstack, hargs, hg⟩ := ih hrest
    obtain ⟨hf, hf'⟩ := pop_eq_ok hpop
    refine ⟨x :: xs, by rw [List.length_cons, hlen], ?_, ?_, ?_⟩
    · rw [hf, hstack, List.cons_append]
    · rw [hargs, List.reverse_cons, List.append_assoc]
      rfl
    · rw [hg, hf']

theorem popArgs_eq_ok {args : List Cell} {n : Nat} {f g : Frame} (h : popArgs n f = .ok args g) :
    args.length = n ∧ f.stack = args.reverse ++ g.stack ∧ g = { f with stack := g.stack } := by
  obtain ⟨xs, hlen, hstack, rfl, hg⟩ := popList_eq_ok h
  refine ⟨by simpa using hlen, by simpa using hstack, hg⟩

/-! ## Local variables -/

theorem getLocal_within (i : Nat) : Within SameBody Failure.IsFault (getLocal i) where
  ok := by
    intro f c g h
    unfold getLocal at h
    split at h
    · cases h
    · cases hc : fetch f.locals i <;> simp [hc] at h
      exact h.2 ▸ refl f
  error := by
    intro f e g h
    unfold getLocal at h
    split at h
    · cases h
      exact ⟨refl f, trivial⟩
    · -- The index is in bounds, so the fetch does not fail.
      have hi : i < f.locals.size := by omega
      simp [fetch, hi] at h

theorem setLocal_within (i : Nat) (c : Cell) : Within SameBody Failure.IsFault (setLocal i c) where
  ok := by
    intro f u g h
    unfold setLocal at h
    split at h
    · cases h
    · cases h
      exact ⟨rfl, rfl, Array.size_setIfInBounds⟩
  error := by
    intro f e g h
    unfold setLocal at h
    split at h <;> cases h
    exact ⟨refl f, trivial⟩

theorem jump_within (pc : Int) : Within SameBody Failure.IsFault (jump pc) where
  ok := by
    rintro f _ _ ⟨⟩
    exact ⟨rfl, rfl, rfl⟩
  error := by
    rintro _ _ _ ⟨⟩

/-! ## Operands -/

variable {f g : Frame} {k : Nat}

theorem nextByte_eq {b : UInt8} (hpc : f.pc = k) (hb : f.code[k]? = some b) :
    nextByte f = .ok b { f with pc := k + 1 } := by
  have hcode : f.codeAt f.pc = .ok b := by
    rw [hpc]
    change fetch f.code k = _
    rw [fetch, hb]
  rw [nextByte, hcode, hpc]

/-- An operand of one byte, from an address that is not negative. -/
theorem readU8_eq (hpc : f.pc = k) :
    readU8 f = if h : k < f.code.size then .ok f.code[k] { f with pc := k + 1 }
      else .error (.fault (.truncated k)) f := by
  unfold readU8
  split
  · rename_i h
    have hneed : need 1 f = .ok () f := by
      rw [need, if_neg (by omega)]
    rw [bind_of_ok hneed]
    exact nextByte_eq hpc (Array.getElem?_eq_getElem h)
  · have hneed : need 1 f = .error (.fault (.truncated k)) f := by
      rw [need, if_pos (by omega), hpc]
    exact bind_of_error hneed

/-- An operand of two bytes, from an address that is not negative. -/
theorem readU16_eq (hpc : f.pc = k) :
    readU16 f = if h : k + 1 < f.code.size then
        .ok (word f.code[k] f.code[k + 1]) { f with pc := k + 2 }
      else .error (.fault (.truncated k)) f := by
  unfold readU16
  split
  · rename_i h
    have hneed : need 2 f = .ok () f := by
      rw [need, if_neg (by omega)]
    have hhi := nextByte_eq hpc (Array.getElem?_eq_getElem (Nat.lt_of_succ_lt h))
    have hlo : nextByte { f with pc := k + 1 } = .ok f.code[k + 1] { f with pc := k + 2 } :=
      nextByte_eq (f := { f with pc := k + 1 }) rfl (Array.getElem?_eq_getElem h)
    rw [bind_of_ok hneed, bind_of_ok hhi, bind_of_ok hlo]
    rfl
  · have hneed : need 2 f = .error (.fault (.truncated k)) f := by
      rw [need, if_pos (by omega), hpc]
    exact bind_of_error hneed

/-- From `f` on, `x` moves the address and nothing else, and fails by a fault. -/
structure OnlyMoves {α : Type} (x : Action Frame α) (f : Frame) : Prop where
  ok : ∀ {a g}, x f = .ok a g → g = { f with pc := g.pc }
  error : ∀ {e g}, x f = .error e g → g = { f with pc := g.pc } ∧ e.IsFault

theorem readU8_onlyMoves (hpc : f.pc = k) : OnlyMoves readU8 f := by
  constructor <;> rw [readU8_eq hpc] <;> intro _ _ hread <;> split at hread <;> cases hread
  · rfl
  · exact ⟨rfl, trivial⟩

theorem readU16_onlyMoves (hpc : f.pc = k) : OnlyMoves readU16 f := by
  constructor <;> rw [readU16_eq hpc] <;> intro _ _ hread <;> split at hread <;> cases hread
  · rfl
  · exact ⟨rfl, trivial⟩

/-- What is made of a value that was read makes no further move. -/
theorem OnlyMoves.then_return {α β : Type} {x : Action Frame α} (hx : OnlyMoves x f) (c : α → β) :
    OnlyMoves (do return c (← x)) f where
  ok h := by
    obtain ⟨a, t, ht, ⟨⟩⟩ := bind_eq_ok.1 h
    exact hx.ok ht
  error h := by
    rcases bind_eq_error.1 h with ht | ⟨_, _, _, ⟨⟩⟩
    exact hx.error ht

/-- A word is its high byte times 256 and its low byte. -/
theorem word_toNat (hi lo : UInt8) : (word hi lo).toNat = hi.toNat * 256 + lo.toNat := by
  have hhi := hi.toNat_lt
  have hlo := lo.toNat_lt
  have hshift : (hi.toUInt16 <<< 8).toNat = hi.toNat <<< 8 := by
    rw [UInt16.toNat_shiftLeft, UInt8.toNat_toUInt16]
    exact Nat.mod_eq_of_lt (by rw [Nat.shiftLeft_eq]; change _ * 256 < 65536; omega)
  rw [word, UInt16.toNat_or, hshift, UInt8.toNat_toUInt16, ← Nat.shiftLeft_add_eq_or_of_lt hlo,
    Nat.shiftLeft_eq]

end Frame

/-! ## Instructions -/

namespace Opcode

/-- How many bytes an instruction takes, its opcode included. -/
def length : Opcode → Nat
  | .bipush | .vload | .vstore | .new | .aaddf | .newarray => 2
  | .ildc | .aldc | .ifCmpeq | .ifCmpne | .ifIcmplt | .ifIcmpge | .ifIcmpgt | .ifIcmple | .goto
  | .invokestatic | .invokenative => 3
  | _ => 1

theorem ofByte?_byte (op : Opcode) : ofByte? op.byte = some op := by
  cases op <;> rfl

theorem byte_of_ofByte? {b : UInt8} {op : Opcode} (h : ofByte? b = some op) : b = op.byte := by
  unfold ofByte? at h
  split at h <;> cases h <;> rfl

end Opcode

/-- At the address `k` of the code stands the opcode `op`, and behind it, the high
    byte first, the number `i`. -/
def WordInstrAt (code : Array UInt8) (k : Nat) (op : Opcode) (i : Nat) : Prop :=
  ∃ hi lo : UInt8, code[k]? = some op.byte ∧ code[k + 1]? = some hi ∧
    code[k + 2]? = some lo ∧ hi.toNat * 256 + lo.toNat = i

theorem WordInstrAt.lt {code : Array UInt8} {k i : Nat} {op : Opcode}
    (h : WordInstrAt code k op i) : k + 2 < code.size := by
  obtain ⟨hi, lo, -, -, hlo, -⟩ := h
  exact (Array.getElem?_eq_some_iff.1 hlo).1

theorem WordInstrAt.exists_word {code : Array UInt8} {k i : Nat} {op : Opcode}
    (h : WordInstrAt code k op i) : ∃ w : UInt16, w.toNat = i := by
  obtain ⟨hi, lo, -, -, -, rfl⟩ := h
  exact ⟨Frame.word hi lo, Frame.word_toNat hi lo⟩

namespace Instr

open CZero.Action CZero.Frame

variable {f g : Frame} {k : Nat}

/-- What follows an opcode: nothing, a byte or a word; or the opcode is a fault. -/
theorem readOperands_shape (op : Opcode) :
    (op.length = 1 ∧ ∃ i, readOperands op = pure i) ∨
      (op.length = 2 ∧ ∃ c : UInt8 → Instr, readOperands op = do return c (← readU8)) ∨
      (op.length = 3 ∧ ∃ c : UInt16 → Instr, readOperands op = do return c (← readU16)) ∨
      op.length = 1 ∧ ∃ cause, readOperands op = fault cause ∧
        Failure.IsFault (.fault cause) := by
  cases op with
  | addrofStatic | addrofNative | invokedynamic | checktag | hastag | addtag =>
    exact .inr (.inr (.inr ⟨rfl, _, rfl, trivial⟩))
  | vload | vstore | new | aaddf | newarray => exact .inr (.inl ⟨rfl, _, rfl⟩)
  | bipush =>
    -- A signed operand is an unsigned one that is read differently.
    simp only [readOperands, readI8, bind_assoc, pure_bind]
    exact .inr (.inl ⟨rfl, _, rfl⟩)
  | ildc | aldc | invokestatic | invokenative => exact .inr (.inr (.inl ⟨rfl, _, rfl⟩))
  | ifCmpeq | ifCmpne | ifIcmplt | ifIcmpge | ifIcmpgt | ifIcmple | goto =>
    simp only [readOperands, readI16, bind_assoc, pure_bind]
    exact .inr (.inr (.inl ⟨rfl, _, rfl⟩))
  | _ => exact .inl ⟨rfl, _, rfl⟩

theorem readOperands_onlyMoves (op : Opcode) (hpc : f.pc = k) : OnlyMoves (readOperands op) f := by
  rcases readOperands_shape op with ⟨-, i, h⟩ | ⟨-, c, h⟩ | ⟨-, c, h⟩ | ⟨-, cause, h, hcause⟩ <;>
    rw [h]
  · constructor <;> rintro _ _ ⟨⟩
    rfl
  · exact (readU8_onlyMoves hpc).then_return c
  · exact (readU16_onlyMoves hpc).then_return c
  · -- A reserved opcode is refused before anything is read.
    constructor <;> rintro _ _ ⟨⟩
    exact ⟨rfl, hcause⟩

/-- An instruction is an opcode and its operands. -/
theorem decode_of_byte {op : Opcode} (hpc : f.pc = k) (hop : f.code[k]? = some op.byte) :
    decode f = readOperands op { f with pc := k + 1 } := by
  rw [decode, bind_of_ok (nextByte_eq hpc hop), Opcode.ofByte?_byte]

theorem decode_of_no_byte {b : UInt8} (hpc : f.pc = k) (hb : f.code[k]? = some b)
    (hop : Opcode.ofByte? b = none) :
    decode f = .error (.fault (.invalidOpcode b)) { f with pc := k + 1 } := by
  rw [decode, bind_of_ok (nextByte_eq hpc hb), hop]
  rfl

/-- Decoding at an address of the code moves the address and nothing else. -/
theorem decode_onlyMoves (hpc : f.pc = k) (hk : k < f.code.size) : OnlyMoves decode f := by
  have hb := Array.getElem?_eq_getElem hk
  cases hop : Opcode.ofByte? f.code[k] with
  | none =>
    constructor <;> rw [decode_of_no_byte hpc hb hop] <;> rintro _ _ ⟨⟩
    exact ⟨rfl, trivial⟩
  | some op =>
    rw [Opcode.byte_of_ofByte? hop] at hb
    -- The operands are read from behind the opcode, which makes no difference here.
    have hmoves : OnlyMoves (readOperands op) { f with pc := k + 1 } :=
      readOperands_onlyMoves op rfl
    constructor <;> rw [decode_of_byte hpc hb] <;> intro _ _ h
    · exact hmoves.ok h
    · exact hmoves.error h

theorem decode_eq_ok {i : Instr} (hpc : f.pc = k) (h : decode f = .ok i g) :
    ∃ op : Opcode, f.code[k]? = some op.byte ∧
      readOperands op { f with pc := k + 1 } = .ok i g := by
  cases hb : f.code[k]? with
  | none =>
    have hcode : f.codeAt f.pc = .error .crash := by
      rw [hpc]
      change fetch f.code k = _
      rw [fetch, hb]
    have hbyte : nextByte f = .error .crash f := by
      rw [nextByte, hcode]
    rw [decode, bind_of_error hbyte] at h
    cases h
  | some b =>
    cases hop : Opcode.ofByte? b with
    | none =>
      rw [decode_of_no_byte hpc hb hop] at h
      cases h
    | some op =>
      rw [Opcode.byte_of_ofByte? hop] at hb
      rw [decode_of_byte hpc hb] at h
      exact ⟨op, by rw [Opcode.byte_of_ofByte? hop], h⟩

/-- An opcode with a word, of which all three bytes are there. -/
theorem decode_of_word {op : Opcode} {c : UInt16 → Instr} {i : UInt16}
    (hop : readOperands op = do return c (← readU16)) (hpc : f.pc = k)
    (hat : WordInstrAt f.code k op i.toNat) : decode f = .ok (c i) { f with pc := k + 3 } := by
  obtain ⟨hi, lo, hb, hhi, hlo, hi'⟩ := hat
  obtain ⟨hk, rfl⟩ := Array.getElem?_eq_some_iff.1 hlo
  obtain ⟨_, rfl⟩ := Array.getElem?_eq_some_iff.1 hhi
  rw [decode_of_byte hpc hb, hop, bind_of_ok (t := { f with pc := k + 3 }) (a := i)]
  · rfl
  · rw [readU16_eq (k := k + 1) rfl, dif_pos hk]
    have hw : word f.code[k + 1] f.code[k + 1 + 1] = i :=
      UInt16.toNat_inj.1 (by rw [word_toNat, hi'])
    rw [hw]
    rfl

/-- Decoding an instruction `c i` of an opcode `op` with a word: when no other opcode
    gives such an instruction, the three bytes are there. -/
theorem decode_eq_word_iff {op : Opcode} {c : UInt16 → Instr} {i : UInt16}
    (hop : readOperands op = do return c (← readU16)) (hc : ∀ i j, c i = c j → i = j)
    (honly : ∀ op' f i g, readOperands op' f = .ok (c i) g → op' = op) (hpc : f.pc = k) :
    decode f = .ok (c i) g ↔
      WordInstrAt f.code k op i.toNat ∧ g = { f with pc := k + 3 } := by
  constructor
  · intro h
    obtain ⟨op', hb, hread⟩ := decode_eq_ok hpc h
    -- The instruction gives the opcode away.
    obtain rfl := honly _ _ _ _ hread
    rw [hop, bind_eq_ok] at hread
    obtain ⟨j, t, hj, hg⟩ := hread
    rw [readU16_eq (k := k + 1) rfl] at hj
    split at hj
    · rename_i hk
      simp only [EStateM.Result.ok.injEq] at hj
      simp only [pure_apply, EStateM.Result.ok.injEq] at hg
      obtain ⟨rfl, rfl⟩ := hj
      obtain ⟨hij, rfl⟩ := hg
      obtain rfl := hc _ _ hij
      exact ⟨⟨_, _, hb, Array.getElem?_eq_getElem _, Array.getElem?_eq_getElem hk,
        (word_toNat _ _).symm⟩, rfl⟩
    · cases hj
  · rintro ⟨hat, rfl⟩
    exact decode_of_word hop hpc hat

theorem decode_eq_call_iff {i : UInt16} (hpc : f.pc = k) :
    decode f = .ok (.call i) g ↔
      WordInstrAt f.code k .invokestatic i.toNat ∧ g = { f with pc := k + 3 } := by
  refine decode_eq_word_iff (c := .call) rfl (fun i j h => Instr.call.inj h) ?_ hpc
  intro op f i g h
  cases op <;> simp [readOperands, map_eq_ok] at h ⊢

theorem decode_eq_callNative_iff {i : UInt16} (hpc : f.pc = k) :
    decode f = .ok (.callNative i) g ↔
      WordInstrAt f.code k .invokenative i.toNat ∧ g = { f with pc := k + 3 } := by
  refine decode_eq_word_iff (c := .callNative) rfl (fun i j h => Instr.callNative.inj h) ?_ hpc
  intro op f i g h
  cases op <;> simp [readOperands, map_eq_ok] at h ⊢

theorem decode_eq_ret_iff (hpc : f.pc = k) :
    decode f = .ok .ret g ↔
      f.code[k]? = some Opcode.ret.byte ∧ g = { f with pc := k + 1 } := by
  constructor
  · intro h
    obtain ⟨op, hb, hread⟩ := decode_eq_ok hpc h
    cases op <;> simp [readOperands, map_eq_ok] at hread
    exact ⟨hb, hread.symm⟩
  · rintro ⟨hb, rfl⟩
    rw [decode_of_byte hpc hb]
    rfl

end Instr

end CZero
