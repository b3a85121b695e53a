import CZero.Native

/-!
# Character arrays

Strings as arrays of characters that hold a NUL, and back. The null pointer is an
array without elements.
-/

namespace CZero.Library

open Native

/-- The length of an array; the null pointer has none. -/
def lengthAt (p : Addr) (h : Heap) : Except Failure Int32 :=
  if p = Addr.null then .ok 0 else h.arrayLength p

/-- Whether the first so many characters of an array hold a NUL. -/
def stringTerminated (args : List Cell) : Action Host Cell := do
  let p ← ptrArg args 0
  let n ← intArg args 1
  let length ← Host.ofHeap (lengthAt p)
  if n < 0 ∨ length < n then breach "string_terminated" (.charCount n length)
  else
    let chars ← Host.ofHeap (·.readChars "string_terminated" p n)
    return .ofBool (chars.contains 0)

/-- An array of the characters of a string and a NUL. -/
def stringToCharArray (args : List Cell) : Action Host Cell := do
  let s ← stringArg args 0
  returning (Heap.allocChars (s ++ [0]))

/-- The string in an array of characters, up to its first NUL. -/
def stringFromCharArray (args : List Cell) : Action Host Cell := do
  let p ← ptrArg args 0
  let length ← Host.ofHeap (lengthAt p)
  let chars ← Host.ofHeap (·.readChars "string_from_chararray" p length)
  if chars.contains 0 then returnString (chars.before 0)
  else breach "string_from_chararray" .unterminated

end CZero.Library
