import CZero.Proofs.Underlay
import Mathlib.Data.Int.ModEq

/-!
# Where a step goes on

An instruction takes one, two or three bytes (`Opcode.length`). If the code ends inside of
it, the step is a fault before anything has happened (`step_truncated`). Else its operands
are read before anything else is done, so the frame stands behind the instruction while it
is carried out (`fetchInstr_of_step`), and stays there unless the instruction is a branch
that is taken (`perform_steady`). A call leaves it there too, as the frame that waits, and
so does a return, which drops it.

The target of a branch is counted from its opcode. A comparison takes two cells off the
stack, and whether it branches is a matter of these cells alone
(`step_comparison_iff`): of two opposite comparisons, exactly one branches.
-/

namespace CZero

open CZero.Action

/-! ## Branches -/

namespace Opcode

/-- Whether the comparison of `a`, which was pushed first, and `b` branches. There is no
    answer for other opcodes, and none for cells that the comparison refuses. -/
def branchesOn? : Opcode → Cell → Cell → Option Bool
  | .ifCmpeq, a, b => some (a = b)
  | .ifCmpne, a, b => some (a ≠ b)
  | .ifIcmplt, .int a, .int b => some (a.toInt < b.toInt)
  | .ifIcmpge, .int a, .int b => some (b.toInt ≤ a.toInt)
  | .ifIcmpgt, .int a, .int b => some (b.toInt < a.toInt)
  | .ifIcmple, .int a, .int b => some (a.toInt ≤ b.toInt)
  | _, _, _ => none

/-- Whether an opcode is that of a comparison. -/
def isComparison : Opcode → Bool
  | .ifCmpeq | .ifCmpne | .ifIcmplt | .ifIcmpge | .ifIcmpgt | .ifIcmple => true
  | _ => false

/-- Whether an opcode branches when it finds the stack. -/
def branches (op : Opcode) : List Cell → Bool
  | b :: a :: _ => op == .goto || op.branchesOn? a b == some true
  | _ => op == .goto

variable {op : Opcode} {stack rest : List Cell} {a b : Cell} {yes : Bool}

theorem branchesOn?_eq_none (hop : op.isComparison = false) : op.branchesOn? a b = none := by
  cases op with
  | ifCmpeq | ifCmpne | ifIcmplt | ifIcmpge | ifIcmpgt | ifIcmple => cases hop
  | _ => rfl

theorem length_of_isComparison (hop : op.isComparison) : op.length = 3 := by
  cases op with
  | ifCmpeq | ifCmpne | ifIcmplt | ifIcmpge | ifIcmpgt | ifIcmple => rfl
  | _ => cases hop

theorem branches_goto : goto.branches stack = true := by
  unfold branches
  split <;> rfl

theorem branches_of_comparison (hop : op.isComparison) (h : op.branchesOn? a b = some yes) :
    op.branches (b :: a :: rest) = yes := by
  have hgoto : (op == .goto) = false := by
    rw [beq_eq_false_iff_ne]
    rintro rfl
    cases hop
  rw [branches, hgoto, h, Bool.false_or]
  cases yes <;> rfl

theorem branches_eq_false (hop : (op == .goto || op.isComparison) = false) :
    op.branches stack = false := by
  rw [Bool.or_eq_false_iff] at hop
  unfold branches
  split
  · rw [hop.1, branchesOn?_eq_none hop.2]
    rfl
  · exact hop.1

end Opcode

/-- Behind the opcode `op` at `k`, the number `d` is written in two bytes, the high byte
    first, as a signed one. -/
structure OffsetAt (code : Array UInt8) (k : Nat) (op : Opcode) (d : Int) : Prop where
  bytes : ∃ i : Nat, WordInstrAt code k op i ∧ d ≡ i [ZMOD 0x10000]
  lower : -0x8000 ≤ d
  upper : d < 0x8000

/-- The step of the frame `f` at the opcode `op`, which is at `k`, leads to `pc`: to the
    target if it branches, and else behind the instruction. -/
def Opcode.LeadsTo (op : Opcode) (f : Frame) (k : Nat) (pc : Int) : Prop :=
  if op.branches f.stack then ∃ d, OffsetAt f.code k op d ∧ pc = k + d
  else pc = (k + op.length : Nat)

variable {code : Array UInt8} {k : Nat} {op : Opcode}

theorem toInt_toInt16 (w : UInt16) : w.toInt16.toInt = Int.bmod w.toNat 0x10000 :=
  BitVec.toInt_eq_toNat_bmod w.toBitVec

/-- The word in the bytes of an offset. -/
theorem OffsetAt.exists_word {d : Int} (hd : OffsetAt code k op d) :
    ∃ w : UInt16, WordInstrAt code k op w.toNat ∧ w.toInt16.toInt = d := by
  obtain ⟨⟨i, hat, hmod⟩, hlower, hupper⟩ := hd
  obtain ⟨w, rfl⟩ := hat.exists_word
  refine ⟨w, hat, ?_⟩
  rw [Int.ModEq] at hmod
  rw [toInt_toInt16, Int.bmod_def]
  split <;> omega

theorem offsetAt_of_word {w : UInt16} (hat : WordInstrAt code k op w.toNat) :
    OffsetAt code k op w.toInt16.toInt := by
  have hlt := w.toNat_lt
  refine ⟨⟨_, hat, ?_⟩, ?_, ?_⟩ <;> rw [toInt_toInt16]
  · exact Int.bmod_emod
  · rw [Int.bmod_def]
    split <;> omega
  · rw [Int.bmod_def]
    split <;> omega

/-- Three bytes of code from an opcode on. -/
theorem exists_wordInstrAt (hop : code[k]? = some op.byte) (hk : k + 3 ≤ code.size) :
    ∃ w : UInt16, WordInstrAt code k op w.toNat :=
  ⟨Frame.word code[k + 1] code[k + 2], _, _, hop, Array.getElem?_eq_getElem _,
    Array.getElem?_eq_getElem _, (Frame.word_toNat _ _).symm⟩

/-! ## Operands -/

namespace Instr

open CZero.Frame

variable {f g : Frame} {i : Instr}

/-- Operands that the code ends before are not read. -/
theorem readOperands_truncated (hk : k < f.code.size) (hsize : f.code.size < k + op.length)
    (hpc : f.pc = (k + 1 : Nat)) :
    readOperands op f = .error (.fault (.truncated (k + 1 : Nat))) f := by
  rcases readOperands_shape op with ⟨hlen, -⟩ | ⟨hlen, c, h⟩ | ⟨hlen, c, h⟩ | ⟨hlen, -⟩
  · omega
  · rw [h]
    exact bind_of_error (by rw [readU8_eq hpc, dif_neg (by omega)])
  · rw [h]
    exact bind_of_error (by rw [readU16_eq hpc, dif_neg (by omega)])
  · omega

/-- Operands that are read are all that follows the opcode. -/
theorem readOperands_eq_ok (hpc : f.pc = (k + 1 : Nat)) (h : readOperands op f = .ok i g) :
    g = { f with pc := (k + op.length : Nat) } := by
  rcases readOperands_shape op with
    ⟨hlen, j, hop⟩ | ⟨hlen, c, hop⟩ | ⟨hlen, c, hop⟩ | ⟨-, c, hop, -⟩
  all_goals rw [hop] at h
  · cases h
    rw [hlen, ← hpc]
  · obtain ⟨b, t, hb, ⟨⟩⟩ := bind_eq_ok.1 h
    rw [readU8_eq hpc] at hb
    split at hb <;> cases hb
    rw [hlen]
    rfl
  · obtain ⟨w, t, hw, ⟨⟩⟩ := bind_eq_ok.1 h
    rw [readU16_eq hpc] at hw
    split at hw <;> cases hw
    rw [hlen]
    rfl
  · cases h

/-- Only the opcodes of branches give branches. -/
theorem isBranch_of_readOperands (h : readOperands op f = .ok i g) :
    i.isBranch = (op == .goto || op.isComparison) := by
  cases op with
  | bipush | ildc | aldc | vload | vstore | new | aaddf | newarray | invokestatic | invokenative
  | ifCmpeq | ifCmpne | ifIcmplt | ifIcmpge | ifIcmpgt | ifIcmple | goto =>
    obtain ⟨_, _, _, ⟨⟩⟩ := bind_eq_ok.1 h
    rfl
  | addrofStatic | addrofNative | invokedynamic | checktag | hastag | addtag => cases h
  | _ =>
    cases h
    rfl

end Instr

/-! ## Instructions that are not branches -/

/-- The two frames stand at the same address. -/
def Frame.SamePc (f g : Frame) : Prop :=
  g.pc = f.pc

instance : IsPreorder Frame Frame.SamePc where
  refl _ := rfl
  trans _ _ _ h h' := Eq.trans h' h

namespace Frame

variable {α : Type}

/-- The action leaves the address as it is. -/
abbrev Steady (x : Action Frame α) : Prop :=
  Within SamePc (fun _ => True) x

theorem push_steady (c : Cell) : Steady (push c) :=
  within_of_final (fun _ => rfl) fun _ _ _ _ => trivial

theorem pop_steady : Steady pop := by
  refine within_of_final (fun f => ?_) fun _ _ _ _ => trivial
  unfold final pop
  cases f.stack <;> rfl

theorem popInt_steady : Steady popInt :=
  pop_steady.bind fun _ => within_ofResult fun _ _ => trivial

theorem popPtr_steady : Steady popPtr :=
  pop_steady.bind fun _ => within_ofResult fun _ _ => trivial

theorem popList_steady (acc : List Cell) (n : Nat) : Steady (popList acc n) := by
  induction n generalizing acc with
  | zero => exact within_pure acc
  | succ n ih => exact pop_steady.bind fun c => ih (c :: acc)

theorem popArgs_steady (n : Nat) : Steady (popArgs n) :=
  popList_steady [] n

theorem getLocal_steady (i : Int) : Steady (getLocal i) := by
  refine within_of_final (fun f => ?_) fun _ _ _ _ => trivial
  unfold final getLocal
  split_ifs
  · rfl
  · cases i with
    | ofNat k => cases hc : fetch f.locals k <;> simp only [hc, ofResult_ok, ofResult_error] <;> rfl
    | negSucc k => rfl

theorem setLocal_steady (i : Int) (c : Cell) : Steady (setLocal i c) := by
  refine within_of_final (fun f => ?_) fun _ _ _ _ => trivial
  unfold final setLocal
  split_ifs
  · rfl
  · cases i <;> rfl

end Frame

/-- The frames that are current in the two states stand at the same address. -/
def State.SamePc (s t : State) : Prop :=
  s.frame.SamePc t.frame

instance : IsPreorder State State.SamePc where
  refl _ := rfl
  trans _ _ _ h h' := Eq.trans h' h

namespace State

variable {α : Type}

/-- The action leaves the address of the current frame as it is. -/
abbrev Steady (x : Action State α) : Prop :=
  Within SamePc (fun _ => True) x

theorem onFrame_steady {x : Action Frame α} (hx : Frame.Steady x) : Steady (onFrame x) where
  ok h := by
    obtain ⟨g, hg, rfl⟩ := onFrame_eq_ok.1 h
    exact hx.ok hg
  error h := by
    obtain ⟨g, hg, rfl⟩ := onFrame_eq_error.1 h
    exact hx.error hg

theorem onHost_steady (x : Action Host α) : Steady (onHost x) where
  ok h := by
    obtain ⟨k, hk, rfl⟩ := onHost_eq_ok.1 h
    rfl
  error h := by
    obtain ⟨k, hk, rfl⟩ := onHost_eq_error.1 h
    exact ⟨rfl, trivial⟩

theorem push_steady (c : Cell) : Steady (push c) :=
  onFrame_steady (Frame.push_steady c)

theorem pop_steady : Steady pop :=
  onFrame_steady Frame.pop_steady

theorem popInt_steady : Steady popInt :=
  onFrame_steady Frame.popInt_steady

theorem popPtr_steady : Steady popPtr :=
  onFrame_steady Frame.popPtr_steady

theorem onHeap_steady (x : Action Heap α) : Steady (onHeap x) :=
  onHost_steady _

theorem ofHeap_steady (f : Heap → Except Failure α) : Steady (ofHeap f) :=
  onHost_steady _

theorem ofResult_steady (r : Except Failure α) : Steady (ofResult r) :=
  within_ofResult fun _ _ => trivial

theorem fault_steady (c : Fault.Cause) : Steady (fault c : Action State α) :=
  within_fault c trivial

end State

namespace Machine

open State

variable {m : Machine} {s t : State} {r : Option Cell} {i : Instr}

theorem Call.perform_steady (c : Call) : Steady c.perform := by
  rw [perform_eq]
  exact (onHost_steady _).bind push_steady

/-- The parts of instructions, other than branches, leave the address as it is. -/
theorem composes_steady : Composes Steady where
  pure := within_pure
  bind := Within.bind
  fault c _ := fault_steady c
  push := push_steady
  pop := pop_steady
  popInt := popInt_steady
  popPtr := popPtr_steady
  getLocal k := onFrame_steady (Frame.getLocal_steady k)
  setLocal k c := onFrame_steady (Frame.setLocal_steady k c)
  popArgs k := onFrame_steady (Frame.popArgs_steady k)
  apply _ _ _ := ofResult_steady _
  loadCell _ _ := ofHeap_steady _
  loadString _ := ofHeap_steady _
  arrayLength _ := ofHeap_steady _
  arrayElement _ _ := ofHeap_steady _
  storeInt _ _ := onHeap_steady _
  storePtr _ _ := onHeap_steady _
  storeChar _ _ := onHeap_steady _
  allocArray _ _ := onHeap_steady _

/-- In its frame, only a branch goes anywhere else than on. -/
theorem perform_steady (hcall : ∀ index, i ≠ .call index) (hbranch : i.isBranch = false) :
    Steady (m.perform i) :=
  composes_steady.perform (fun h => absurd h (ne_true_of_eq_false hbranch))
    (fun index h => absurd h (hcall index))
    (fun _ _ => (composes_steady.prepareNative _).bind Call.perform_steady)
    fun _ _ => onHeap_steady _

/-! ## Fetching an instruction of a given opcode -/

/-- `s` is about to carry out the instruction of the opcode `op`, at `k`. -/
structure AtOpcode (s : State) (k : Nat) (op : Opcode) : Prop where
  pc : s.frame.pc = k
  code : s.frame.code[k]? = some op.byte

/-- The state in which an instruction at `k` that takes `n` bytes is carried out. -/
def behind (s : State) (k n : Nat) : State :=
  ⟨{ s.frame with pc := (k + n : Nat) }, s.callers, s.host, k⟩

theorem fetchInstr_of_opcode (hs : AtOpcode s k op) :
    fetchInstr s = onFrame (Instr.readOperands op) (behind s k 1) := by
  obtain ⟨hk, -⟩ := Array.getElem?_eq_some_iff.1 hs.code
  rw [fetchInstr_inside hs.pc hk, onFrame, onFrame]
  simp only [behind, Instr.decode_of_byte hs.pc hs.code]
  rfl

/-- An instruction that the code ends inside of is a fault. Its opcode has been passed, and
    nothing else has happened. -/
theorem step_truncated (hs : AtOpcode s k op) (hsize : s.frame.code.size < k + op.length) :
    m.step s = .error (.fault (.truncated (k + 1 : Nat))) (behind s k 1) := by
  obtain ⟨hk, -⟩ := Array.getElem?_eq_some_iff.1 hs.code
  refine bind_of_error ?_
  rw [fetchInstr_of_opcode hs]
  exact onFrame_eq_error.2 ⟨_, Instr.readOperands_truncated hk hsize rfl, rfl⟩

/-- A step that succeeds carries out its instruction from behind all of it. -/
theorem fetchInstr_of_step (hs : AtOpcode s k op) (h : m.step s = .ok r t) :
    ∃ i f g, Instr.readOperands op f = .ok i g ∧ fetchInstr s = .ok i (behind s k op.length) ∧
      m.exec i (behind s k op.length) = .ok r t := by
  obtain ⟨i, u, hfetch, hexec⟩ := bind_eq_ok.1 h
  obtain ⟨g, hread, rfl⟩ := onFrame_eq_ok.1 (fetchInstr_of_opcode hs ▸ hfetch)
  obtain rfl := Instr.readOperands_eq_ok rfl hread
  exact ⟨i, _, _, hread, hfetch, hexec⟩

/-! ## Carrying out a branch -/

/-- The state in which a branch at `k` has led to `pc`, with `rest` on the stack. -/
def branchedTo (s : State) (k : Nat) (pc : Int) (rest : List Cell) : State :=
  ⟨{ s.frame with pc := pc, stack := rest }, s.callers, s.host, k⟩

theorem perform_branchEq_iff {want : Bool} {offset : Int16} :
    m.perform (.branchEq want offset) s = .ok () t ↔ ∃ a b rest, s.frame.stack = b :: a :: rest ∧
      t = branchedTo s s.last
        (if (a == b) = want then s.last + offset.toInt else s.frame.pc) rest := by
  obtain ⟨⟨func, code, pc, stack, locals⟩, callers, host, last⟩ := s
  match stack with
  | [] | [_] => constructor <;> nofun
  | b :: a :: rest =>
    have hperform : m.perform (.branchEq want offset)
        ⟨⟨func, code, pc, b :: a :: rest, locals⟩, callers, host, last⟩ =
        .ok () (branchedTo ⟨⟨func, code, pc, b :: a :: rest, locals⟩, callers, host, last⟩ last
          (if (a == b) = want then last + offset.toInt else pc) rest) := by
      refine (bind_of_ok rfl).trans ((bind_of_ok rfl).trans ?_)
      split_ifs <;> rfl
    rw [hperform]
    constructor
    · rintro ⟨⟩
      exact ⟨a, b, rest, rfl, rfl⟩
    · rintro ⟨_, _, _, ⟨⟩, rfl⟩
      rfl

theorem perform_branchOrd_iff {order : IntOrder} {offset : Int16} :
    m.perform (.branchOrd order offset) s = .ok () t ↔
      ∃ a b rest, s.frame.stack = .int b :: .int a :: rest ∧
        t = branchedTo s s.last
          (if order.holds a b then s.last + offset.toInt else s.frame.pc) rest := by
  obtain ⟨⟨func, code, pc, stack, locals⟩, callers, host, last⟩ := s
  match stack with
  | [] | .ptr _ :: _ | [.int _] | .int _ :: .ptr _ :: _ => constructor <;> nofun
  | .int b :: .int a :: rest =>
    have hperform : m.perform (.branchOrd order offset)
        ⟨⟨func, code, pc, .int b :: .int a :: rest, locals⟩, callers, host, last⟩ =
        .ok () (branchedTo ⟨⟨func, code, pc, .int b :: .int a :: rest, locals⟩, callers, host, last⟩
          last (if order.holds a b then last + offset.toInt else pc) rest) := by
      refine (bind_of_ok rfl).trans ((bind_of_ok rfl).trans ?_)
      split_ifs <;> rfl
    rw [hperform]
    constructor
    · rintro ⟨⟩
      exact ⟨a, b, rest, rfl, rfl⟩
    · rintro ⟨_, _, _, ⟨⟩, rfl⟩
      rfl

/-- The opcode `op` is followed by a word, with which it becomes the branch `c`. This takes
    two cells off the stack, and they decide whether it branches. -/
structure Decides (m : Machine) (op : Opcode) (c : UInt16 → Instr) : Prop where
  operands : Instr.readOperands op = do return c (← Frame.readU16)
  branch : ∀ w, c w ≠ .ret
  perform : ∀ w s t, m.perform (c w) s = .ok () t ↔ ∃ a b rest yes,
    s.frame.stack = b :: a :: rest ∧ op.branchesOn? a b = some yes ∧
      t = branchedTo s s.last (if yes then s.last + w.toInt16.toInt else s.frame.pc) rest

theorem decides_branchEq (m : Machine) {want : Bool}
    (hop : Instr.readOperands op = do return .branchEq want (← Frame.readI16))
    (hcells : ∀ a b, op.branchesOn? a b = some (decide ((a == b) = want))) :
    m.Decides op fun w => .branchEq want w.toInt16 where
  operands := by
    rw [hop]
    simp only [Frame.readI16, bind_assoc, pure_bind]
  branch _ := nofun
  perform w s t := by
    rw [perform_branchEq_iff]
    simp [hcells]

theorem decides_branchOrd (m : Machine) {order : IntOrder}
    (hop : Instr.readOperands op = do return .branchOrd order (← Frame.readI16))
    (hcells : ∀ a b yes, op.branchesOn? a b = some yes ↔
      ∃ x y, a = .int x ∧ b = .int y ∧ order.holds x y = yes) :
    m.Decides op fun w => .branchOrd order w.toInt16 where
  operands := by
    rw [hop]
    simp only [Frame.readI16, bind_assoc, pure_bind]
  branch _ := nofun
  perform w s t := by
    rw [perform_branchOrd_iff]
    constructor
    · rintro ⟨x, y, rest, hstack, rfl⟩
      exact ⟨.int x, .int y, rest, _, hstack, (hcells _ _ _).2 ⟨x, y, rfl, rfl, rfl⟩, rfl⟩
    · rintro ⟨a, b, rest, yes, hstack, hyes, rfl⟩
      obtain ⟨x, y, rfl, rfl, rfl⟩ := (hcells a b yes).1 hyes
      exact ⟨x, y, rest, hstack, rfl⟩

/-- Every comparison decides. -/
theorem exists_decides (m : Machine) (hop : op.isComparison) : ∃ c, m.Decides op c := by
  cases op with
  | ifCmpeq | ifCmpne =>
    refine ⟨_, decides_branchEq m rfl fun a b => ?_⟩
    simp [Opcode.branchesOn?]
  | ifIcmplt | ifIcmpge | ifIcmpgt | ifIcmple =>
    refine ⟨_, decides_branchOrd m rfl fun a b yes => ?_⟩
    cases a <;> cases b <;>
      simp [Opcode.branchesOn?, IntOrder.holds, Int32.lt_iff_toInt_lt, Int32.le_iff_toInt_le]
  | _ => cases hop

theorem step_of_word {c : UInt16 → Instr} {w : UInt16} (hpc : s.frame.pc = k)
    (hop : Instr.readOperands op = do return c (← Frame.readU16))
    (hat : WordInstrAt s.frame.code k op w.toNat) :
    m.step s = m.exec (c w) (behind s k 3) := by
  have hfetch := fetchInstr_of_decode hpc (Nat.lt_of_le_of_lt (Nat.le_add_right k 2) hat.lt)
    (Instr.decode_of_word hop hpc hat)
  exact bind_of_ok hfetch

/-- What the step at a comparison is: it succeeds exactly if there are two cells on the stack
    that the comparison takes. -/
theorem step_comparison_iff {d : Int} (hop : op.isComparison) (hpc : s.frame.pc = k)
    (hd : OffsetAt s.frame.code k op d) :
    m.step s = .ok r t ↔ ∃ a b rest yes, s.frame.stack = b :: a :: rest ∧
      op.branchesOn? a b = some yes ∧ r = none ∧
        t = branchedTo s k (if yes then k + d else k + 3) rest := by
  obtain ⟨c, hc⟩ := exists_decides m hop
  obtain ⟨w, hat, rfl⟩ := hd.exists_word
  rw [step_of_word hpc hc.operands hat, exec_of_ne_ret (hc.branch w), bind_eq_ok]
  constructor
  · rintro ⟨_, u, hperform, ⟨⟩⟩
    obtain ⟨a, b, rest, yes, hstack, hyes, rfl⟩ := (hc.perform _ _ _).1 hperform
    exact ⟨a, b, rest, yes, hstack, hyes, rfl, rfl⟩
  · rintro ⟨a, b, rest, yes, hstack, hyes, rfl, rfl⟩
    exact ⟨(), _, (hc.perform _ _ _).2 ⟨a, b, rest, yes, hstack, hyes, rfl⟩, rfl⟩

/-- What the step at a `goto` is. -/
theorem step_goto {d : Int} (hpc : s.frame.pc = k) (hd : OffsetAt s.frame.code k .goto d) :
    m.step s = .ok none (branchedTo s k (k + d) s.frame.stack) := by
  obtain ⟨w, hat, rfl⟩ := hd.exists_word
  have hop : Instr.readOperands .goto = do return .goto (← Frame.readU16).toInt16 := by
    simp only [Instr.readOperands, Frame.readI16, bind_assoc, pure_bind]
  rw [step_of_word hpc hop hat]
  rfl

/-! ## Where a step goes on -/

/-- The step from `s` to `t` leaves the frame of `s` at `pc`. -/
inductive LeavesAt (s t : State) (pc : Int) : Prop
  /-- The frame is still the current one. -/
  | current : s.frame.SameBody t.frame → t.callers = s.callers → t.frame.pc = pc →
    LeavesAt s t pc
  /-- It waits for a call. -/
  | waiting {f : Frame} : s.frame.SameBody f → t.callers = s.callers.push f → f.pc = pc →
    LeavesAt s t pc
  /-- It has returned, and so it is gone; it was at `pc` when it did. -/
  | returned {u : State} {v : Cell} {caller : Frame} : fetchInstr s = .ok .ret u →
    u.frame.pc = pc → s.callers = t.callers.push caller →
    t.frame = { caller with stack := v :: caller.stack } → LeavesAt s t pc

theorem leavesAt_branchedTo (s : State) (k : Nat) (pc : Int) (rest : List Cell) :
    LeavesAt s (branchedTo s k pc rest) pc :=
  .current ⟨rfl, rfl, rfl⟩ rfl rfl

/-- An instruction that is not a branch leaves its frame behind it. -/
theorem leavesAt_of_exec {n : Nat} (hfetch : fetchInstr s = .ok i (behind s k n))
    (hbranch : i.isBranch = false) (h : m.exec i (behind s k n) = .ok r t) :
    LeavesAt s t (k + n : Nat) := by
  by_cases hret : i = .ret
  · subst hret
    obtain ⟨v, -, ⟨-, -, rfl⟩ | ⟨caller, callers, hcallers, -, rfl⟩⟩ := leave_eq_ok h
    · exact .current ⟨rfl, rfl, rfl⟩ rfl rfl
    · exact .returned hfetch rfl hcallers rfl
  rw [exec_of_ne_ret hret] at h
  obtain ⟨_, u, hperform, ⟨⟩⟩ := bind_eq_ok.1 h
  by_cases hcall : ∃ index, i = .call index
  · obtain ⟨index, rfl⟩ := hcall
    obtain ⟨f, args, rest, -, -, -, -, -, rfl⟩ := call_eq_ok_iff.1 hperform
    refine .waiting ?_ rfl rfl
    exact ⟨rfl, rfl, rfl⟩
  · have hne : ∀ index, i ≠ .call index := fun index hi => hcall ⟨index, hi⟩
    have hstay := (perform_within m.obeys_anyHost i hne).ok hperform
    exact .current ⟨hstay.body.func, hstay.body.code, hstay.body.vars⟩ hstay.callers
      ((perform_steady hne hbranch).ok hperform)

/-- A step that succeeds has found all of its instruction. -/
theorem le_size_of_step (hs : AtOpcode s k op) (h : m.step s = .ok r t) :
    k + op.length ≤ s.frame.code.size := by
  by_contra hsize
  rw [step_truncated hs (Nat.not_le.1 hsize)] at h
  cases h

/-- A step that succeeds leaves its frame where its instruction leads. -/
theorem leavesAt_of_step (hs : AtOpcode s k op) (h : m.step s = .ok r t) :
    ∃ pc, op.LeadsTo s.frame k pc ∧ LeavesAt s t pc := by
  have hsize := le_size_of_step hs h
  unfold Opcode.LeadsTo
  by_cases hgoto : op = .goto
  · subst hgoto
    obtain ⟨w, hw⟩ := exists_wordInstrAt hs.code hsize
    have hd := offsetAt_of_word hw
    rw [step_goto hs.pc hd] at h
    cases h
    rw [Opcode.branches_goto]
    exact ⟨_, ⟨_, hd, rfl⟩, leavesAt_branchedTo s k _ _⟩
  cases hop : op.isComparison with
  | true =>
    have hlen := Opcode.length_of_isComparison hop
    obtain ⟨w, hw⟩ := exists_wordInstrAt hs.code (hlen ▸ hsize)
    have hd := offsetAt_of_word hw
    obtain ⟨a, b, rest, yes, hstack, hyes, -, rfl⟩ := (step_comparison_iff hop hs.pc hd).1 h
    rw [hstack, Opcode.branches_of_comparison hop hyes, hlen]
    refine ⟨_, ?_, leavesAt_branchedTo s k _ _⟩
    cases yes
    · rfl
    · exact ⟨_, hd, rfl⟩
  | false =>
    have hbranch : (op == .goto || op.isComparison) = false := by
      rw [hop, Bool.or_false]
      exact beq_eq_false_iff_ne.2 hgoto
    obtain ⟨i, f, g, hread, hfetch, hexec⟩ := fetchInstr_of_step hs h
    rw [Opcode.branches_eq_false hbranch]
    have hi := (Instr.isBranch_of_readOperands hread).trans hbranch
    exact ⟨_, rfl, leavesAt_of_exec hfetch hi hexec⟩

/-- Wherever the comparison `op` finds `a` and `b` on the stack, `b` on top, it takes them
    off, goes to its target if the answer is `yes`, and does nothing else. -/
def Compares (m : Machine) (op : Opcode) (a b : Cell) (yes : Bool) : Prop :=
  ∀ (s : State) (k : Nat) (d : Int) (rest : List Cell), s.frame.pc = k →
    OffsetAt s.frame.code k op d → s.frame.stack = b :: a :: rest →
    m.step s = .ok none
      ⟨{ s.frame with pc := if yes then k + d else k + 3, stack := rest }, s.callers, s.host, k⟩

theorem compares_of_branchesOn? {a b : Cell} {yes : Bool} (hop : op.isComparison)
    (h : op.branchesOn? a b = some yes) : m.Compares op a b yes :=
  fun _ _ _ rest hpc hd hstack =>
    (step_comparison_iff hop hpc hd).2 ⟨a, b, rest, yes, hstack, h, rfl, rfl⟩

/-- Instructions are one to three bytes long, and steps keep to their ends. If the code ends
    inside of the instruction at `k`, the step is an internal fault, and stacks, variables and
    heap are as they were. If the step succeeds, it leaves its frame behind the instruction, or
    at the target if the instruction branches: `goto` always does, a comparison does if the two
    cells on top ask for it. The target is counted from the opcode, by a signed number of 16
    bits whose high byte is first.

    A comparison takes two cells, whether it branches or not. Of `if_cmpeq` and `if_cmpne`,
    one branches and the other one does not, whatever the cells. So it is with `if_icmplt` and
    `if_icmpge` for any two integers, and with `if_icmpgt` and `if_icmple`. -/
theorem addresses_exact (m : Machine) :
    (∀ s k op, AtOpcode s k op → s.frame.code.size < k + op.length →
      ∃ c : Fault.Cause, c.kind = .internal ∧
        c.message = utf8 "truncated instruction at pc " ++ decimal (k + 1) ∧
        m.step s = .error (.fault c) ⟨{ s.frame with pc := k + 1 }, s.callers, s.host, k⟩) ∧
    (∀ s k op r t, AtOpcode s k op → m.step s = .ok r t →
      ∃ pc, op.LeadsTo s.frame k pc ∧ LeavesAt s t pc) ∧
    (∀ a b : Cell, m.Compares .ifCmpeq a b (a = b) ∧ m.Compares .ifCmpne a b ¬(a = b)) ∧
    ∀ a b : Int32,
      (m.Compares .ifIcmplt (.int a) (.int b) (a.toInt < b.toInt) ∧
        m.Compares .ifIcmpge (.int a) (.int b) ¬(a.toInt < b.toInt)) ∧
      m.Compares .ifIcmpgt (.int a) (.int b) (a.toInt > b.toInt) ∧
        m.Compares .ifIcmple (.int a) (.int b) ¬(a.toInt > b.toInt) := by
  refine ⟨fun s k op hs hsize => ?_, fun s k op r t hs h => leavesAt_of_step hs h,
    fun a b => ⟨?_, ?_⟩, fun a b => ⟨⟨?_, ?_⟩, ?_, ?_⟩⟩
  · exact ⟨_, rfl, rfl, step_truncated hs hsize⟩
  · exact compares_of_branchesOn? rfl rfl
  · exact compares_of_branchesOn? rfl rfl
  · exact compares_of_branchesOn? rfl rfl
  · exact compares_of_branchesOn? rfl (by simp [Opcode.branchesOn?])
  · exact compares_of_branchesOn? rfl rfl
  · exact compares_of_branchesOn? rfl (by simp [Opcode.branchesOn?])

/-- A loop that compares 1 and 2. Behind it, the code ends inside of a `goto`. -/
def loopingCode : Array UInt8 :=
  #[0x10, 1, 0x10, 2, 0xA1, 0xFF, 0xFC, 0xA7, 0]

/-- A program whose main function is the loop. -/
def looping : Machine where
  program := { functions := some #[{ body := some loopingCode }] }
  natives := #[]

/-- The state in which it is at `k` with `stack`. -/
def loopingAt (k : Nat) (stack : List Cell) : State where
  frame := { func := 0, code := loopingCode, pc := k, stack := stack }
  callers := .empty
  host := (looping.boot 0 {}).host
  last := 0

/-- The loop goes back by four bytes, and the instruction behind it is truncated. -/
theorem addresses_exact_looping :
    OffsetAt loopingCode 4 .ifIcmplt (-4) ∧
    looping.step (loopingAt 4 [.int 2, .int 1]) =
      .ok none { loopingAt 0 [] with last := 4 } ∧
    looping.step (loopingAt 4 [.int 1, .int 2, .ptr 8]) =
      .ok none { loopingAt 7 [.ptr 8] with last := 4 } ∧
    ∃ c : Fault.Cause, c.kind = .internal ∧
      looping.step (loopingAt 7 [.ptr 8]) =
        .error (.fault c) { loopingAt 8 [.ptr 8] with last := 7 } := by
  obtain ⟨htruncated, -, -, hints⟩ := addresses_exact looping
  have hd : OffsetAt loopingCode 4 .ifIcmplt (-4) :=
    ⟨⟨65532, ⟨0xFF, 0xFC, by decide⟩, by decide⟩, by decide, by decide⟩
  have htaken := (hints 1 2).1.1 (loopingAt 4 [.int 2, .int 1]) 4 (-4) [] rfl hd rfl
  have hnotTaken := (hints 2 1).1.1 (loopingAt 4 [.int 1, .int 2, .ptr 8]) 4 (-4) _ rfl hd rfl
  obtain ⟨c, hkind, -, hfault⟩ :=
    htruncated (loopingAt 7 [.ptr 8]) 7 .goto ⟨rfl, by decide⟩ (by decide)
  exact ⟨hd, htaken, hnotTaken, c, hkind, hfault⟩

end Machine

end CZero
