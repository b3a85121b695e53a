import CZero.Native

/-!
# Terminal functions

Printing hands its text to the console and gives back the null pointer, whatever
becomes of the text. Reading a line flushes first.
-/

namespace CZero.Library

open Native

/-- Print a string. -/
def print (args : List Cell) : Action Host Cell := do
  let s ← stringArg args 0
  Host.print s
  return .null

/-- Print a string and a newline. -/
def printLine (args : List Cell) : Action Host Cell := do
  let s ← stringArg args 0
  Host.print s
  Host.print [0x0A]
  return .null

/-- Print an integer in decimal. -/
def printInt (args : List Cell) : Action Host Cell := do
  let n ← intArg args 0
  Host.print (decimal n.toInt)
  return .null

/-- Print a truth value. -/
def printBool (args : List Cell) : Action Host Cell := do
  let n ← intArg args 0
  Host.print (boolText n)
  return .null

/-- Print a character: the low byte of its number. -/
def printChar (args : List Cell) : Action Host Cell := do
  let n ← intArg args 0
  Host.print [n.toUInt32.toUInt8]
  return .null

/-- Write out what is buffered. -/
def flush (_ : List Cell) : Action Host Cell := do
  Host.onConsole Console.flush
  return .null

/-- Whether there is no more input. -/
def atEof (_ : List Cell) : Action Host Cell := do
  return .ofBool (← get).console.atEnd

/-- Take the next line off the input, if there is one. -/
def nextLine : Action Host (Option Bytes) := fun ⟨heap, console⟩ =>
  match console.takeLine? with
  | some (line, console) => .ok (some line) ⟨heap, console⟩
  | none => .ok none ⟨heap, console⟩

/-- Read a line. -/
def readLine (_ : List Cell) : Action Host Cell := do
  Host.onConsole Console.flush
  match ← nextLine with
  | some line => returnString line
  | none => breach "readline" .noInput

end CZero.Library
