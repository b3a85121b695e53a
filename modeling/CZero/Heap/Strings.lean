import CZero.Heap.Basic

/-!
# Strings in the heap

A string in memory ends at its first NUL. Reading one scans the arena from its
address on; a string without NUL before the end of the arena is a fault.
-/

namespace CZero.Heap

/-- The first index from `i` on, among the next `n`, at which a NUL stands. -/
def nulWithin? (mem : Array UInt8) : (n i : Nat) → Option Nat
  | 0, _ => none
  | n + 1, i => if mem[i]? = some 0 then some i else nulWithin? mem n (i + 1)

/-- The string at `p`. -/
def loadString (h : Heap) (p : Addr) : Except Failure Bytes := do
  h.check p 0
  match nulWithin? h.mem (h.size - p.toNat) p.toNat with
  | some stop => h.slice p.toNat (stop - p.toNat)
  | none => .error (.fault (.unterminated p))

/-- Copy a string into a new block, with a NUL behind it. The string is there already, so
    its size is one that the host can provide. -/
def allocString (s : Bytes) : Action Heap Addr := do
  let i ← reserve (s.length + 1)
  write i s
  return addrOf i

end CZero.Heap
