import CZero.Console
import CZero.Proofs.Text
import Mathlib.Data.List.TakeWhile

/-!
# The console as two streams

While the outside world takes what it is given, a console loses nothing and keeps the
order: what has been written out, followed by what is in the buffer, is all that was
handed to it (`Accepts`), whenever the buffer runs over and whenever it is flushed.

Its input is a list of lines. Taking a line takes the first one of them (`takeLine?_of_lines`),
and there is no more input exactly if there are no more lines.
-/

namespace CZero

namespace Console

variable {c d e : Console} {as bs : Bytes}

/-! ## Output -/

/-- The outside world takes what is written, and always did. -/
structure Working (c : Console) : Prop where
  refusal : c.refusal = none
  failed : c.failed = false

/-- The console when its buffer has been written out. -/
def emptied (c : Console) : Console :=
  { c with written := c.written ++ c.pending, pending := #[] }

theorem flush_of_working (hc : c.Working) : flush c = .ok () c.emptied := by
  simp only [flush, hc.refusal, emptied]

/-- The working console `c` was handed `bs`, and it has become `d`. -/
structure Accepts (c : Console) (bs : Bytes) (d : Console) : Prop where
  working : d.Working
  output : d.output = c.output ++ bs

theorem Working.accepts_nil (hc : c.Working) : Accepts c [] c :=
  ⟨hc, (List.append_nil _).symm⟩

theorem Accepts.trans (h : Accepts c as d) (h' : Accepts d bs e) : Accepts c (as ++ bs) e :=
  ⟨h'.working, by rw [h'.output, h.output, List.append_assoc]⟩

/-- Output and input are apart. -/
theorem Accepts.with_input (h : Accepts c bs d) (input : Bytes) : Accepts c bs { d with input } :=
  ⟨⟨h.working.refusal, h.working.failed⟩, h.output⟩

theorem Working.accepts_emptied (hc : c.Working) : Accepts c [] c.emptied :=
  ⟨⟨hc.refusal, hc.failed⟩, by simp [output, emptied]⟩

theorem Working.accepts_push (hc : c.Working) (b : UInt8) :
    Accepts c [b] { c with pending := c.pending.push b } :=
  ⟨⟨hc.refusal, hc.failed⟩, by simp [output]⟩

/-- A byte goes into the buffer, which is written out before if it is full. -/
theorem Working.put_eq (hc : c.Working) (b : UInt8) :
    c.put b = if c.pending.size < capacity then { c with pending := c.pending.push b }
      else { c.emptied with pending := c.emptied.pending.push b } := by
  have hfailed : ¬c.failed = true := by
    rw [hc.failed]
    exact Bool.false_ne_true
  rw [put, if_neg hfailed, flush_of_working hc]

theorem Working.accepts_put (hc : c.Working) (b : UInt8) : Accepts c [b] (c.put b) := by
  rw [hc.put_eq]
  split
  · exact hc.accepts_push b
  · exact hc.accepts_emptied.trans (hc.accepts_emptied.working.accepts_push b)

theorem Working.accepts_write (hc : c.Working) (bs : Bytes) : Accepts c bs (c.write bs) := by
  induction bs generalizing c with
  | nil => exact hc.accepts_nil
  | cons b bs ih =>
    have hput := hc.accepts_put b
    exact hput.trans (ih hput.working)

/-! ## Input -/

theorem Working.input_put (hc : c.Working) (b : UInt8) : (c.put b).input = c.input := by
  rw [hc.put_eq]
  split <;> rfl

theorem Working.input_write (hc : c.Working) (bs : Bytes) : (c.write bs).input = c.input := by
  induction bs generalizing c with
  | nil => rfl
  | cons b bs ih => exact (ih (hc.accepts_put b).working).trans (hc.input_put b)

theorem chomp_newline (body : Bytes) : chomp (body ++ [0x0A]) = body.dropEnd 0x0D := by
  simp [chomp, Bytes.dropEnd]

theorem chomp_of_notMem {body : Bytes} (h : 0x0A ∉ body) : chomp body = body.dropEnd 0x0D := by
  have hlast : body.getLast? ≠ some 0x0A := fun hlast => h (List.mem_of_getLast? hlast)
  have hsame : body.dropEnd 0x0A = body := if_neg hlast
  rw [chomp, hsame]

/-- The line that is taken is the first one of the input, without one carriage return at
    its end; the other lines are left. -/
theorem takeLine?_of_lines {line : Bytes} {rest : List Bytes}
    (h : Text.lines c.input = line :: rest) : ∃ bs, Text.lines bs = rest ∧
      c.takeLine? = some (line.dropEnd 0x0D, { c with input := bs }) := by
  have hne : c.input ≠ [] := by
    intro hnil
    rw [hnil] at h
    cases h
  rw [takeLine?, List.isEmpty_eq_false_iff.2 hne, if_neg Bool.false_ne_true]
  -- The first line ends with a newline, or it is the last one and has none.
  by_cases hmem : 0x0A ∈ c.input
  · obtain ⟨body, bs, hinput, hbody⟩ := List.eq_append_cons_of_mem hmem
    rw [hinput, Text.lines_append_newline hbody, List.cons.injEq] at h
    refine ⟨bs, h.2, ?_⟩
    have htake : c.input.takeWhile (· != 0x0A) = body := by
      rw [hinput, List.takeWhile_append_of_pos (Bytes.bne_of_notMem hbody)]
      simp
    have hdrop : c.input.dropWhile (· != 0x0A) = 0x0A :: bs := by
      rw [hinput, List.dropWhile_append_of_pos (Bytes.bne_of_notMem hbody)]
      simp
    simp only [htake, hdrop, List.take_succ_cons, List.take_zero, chomp_newline, h.1,
      List.drop_succ_cons, List.drop_zero]
  · rw [Text.lines_of_notMem hmem hne, List.cons.injEq] at h
    refine ⟨[], h.2, ?_⟩
    have htake : c.input.takeWhile (· != 0x0A) = c.input :=
      List.takeWhile_eq_self_iff.2 (Bytes.bne_of_notMem hmem)
    have hdrop : c.input.dropWhile (· != 0x0A) = [] :=
      List.dropWhile_eq_nil_iff.2 (Bytes.bne_of_notMem hmem)
    simp only [htake, hdrop, List.take_nil, List.append_nil, chomp_of_notMem hmem, List.drop_nil]
    rw [h.1]

/-- There are lines as long as there is input. -/
theorem lines_eq_nil_iff : Text.lines bs = [] ↔ bs = [] := by
  refine ⟨fun h => ?_, fun h => h ▸ rfl⟩
  by_contra hne
  by_cases hmem : 0x0A ∈ bs
  · obtain ⟨body, rest, rfl, hbody⟩ := List.eq_append_cons_of_mem hmem
    rw [Text.lines_append_newline hbody] at h
    cases h
  · rw [Text.lines_of_notMem hmem hne] at h
    cases h

/-- Nothing is taken when there are no more lines. -/
theorem takeLine?_of_lines_nil (h : Text.lines c.input = []) : c.takeLine? = none := by
  rw [takeLine?, lines_eq_nil_iff.1 h]
  rfl

theorem atEnd_eq (c : Console) : c.atEnd = (Text.lines c.input).isEmpty := by
  rw [atEnd, Bool.eq_iff_iff, List.isEmpty_iff, List.isEmpty_iff, lines_eq_nil_iff]

end Console

end CZero
