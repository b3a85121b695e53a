import CZero.Text.Integer
import CZero.Text.Utf8
import CZero.Toml.Basic

/-!
# The text of a document

A document is UTF-8 text, perhaps after a byte order mark. Of the control
characters only tabs and line ends are allowed, and a carriage return only before a
line feed. Between statements and inside lists, blanks, line ends and comments
count for nothing.

Strings come in four forms: basic strings in double quotes, in which a backslash
starts an escape, and literal strings in single quotes, in which nothing does; each
on one line, or on several between three quotes. A string of several lines may
contain one or two quotes anywhere, also at its end.
-/

namespace CZero.Toml

/-- A character of a line end. -/
def isNewline (c : Char) : Bool :=
  c == '\n' || c == '\r'

/-- A space or a tab. -/
def isBlank (c : Char) : Bool :=
  c == ' ' || c == '\t'

/-- A control character that is not allowed. -/
def isControl (c : Char) : Bool :=
  (c.toNat < 0x20 || c.toNat == 0x7F) && !isBlank c && !isNewline c

/-- Whether all characters are allowed where they are. -/
def isClean : List Char → Bool
  | [] => true
  | c :: cs => !isControl c && (c != '\r' || cs.head? == some '\n') && isClean cs

/-- The bytes without a byte order mark in front. -/
def dropMark (bs : Bytes) : Bytes :=
  if bs.take 2 == [0xFF, 0xFE] || bs.take 2 == [0xFE, 0xFF] then bs.drop 2
  else if bs.take 3 == [0xEF, 0xBB, 0xBF] then bs.drop 3
  else bs

/-- The characters of a document. -/
def chars? (bs : Bytes) : Option (List Char) :=
  ((Utf8.decode? (dropMark bs)).map String.toList).filter isClean

/-- What is left after blanks, line ends and comments; `comment` tells whether the
    text starts inside a comment. -/
def skipAux (comment : Bool) : List Char → List Char
  | [] => []
  | c :: cs =>
    if isNewline c then skipAux false cs
    else if comment then skipAux true cs
    else if isBlank c then skipAux false cs
    else if c == '#' then skipAux true cs
    else c :: cs

/-- What is left after blanks, line ends and comments. -/
def skip (cs : List Char) : List Char :=
  skipAux false cs

/-- What is left after blanks. -/
def skipBlanks (cs : List Char) : List Char :=
  cs.dropWhile isBlank

/-- What is left after the character `c`. -/
def symbol? (c : Char) : List Char → Option (List Char)
  | [] => none
  | d :: cs => if d == c then some cs else none

/-- What is left after a word. -/
def word? (w : String) (cs : List Char) : Option (List Char) :=
  if w.toList.isPrefixOf cs then some (cs.drop w.length) else none

/-! ## Digits -/

/-- The value of a digit of the base. -/
def digit? (base : Nat) (c : Char) : Option Nat :=
  if c.toNat < 0x80 then Text.digit? base c.toUInt8 else none

/-- Whether a character is a digit of the base. -/
def isDigit (base : Nat) (c : Char) : Bool :=
  (digit? base c).isSome

/-- The value of digits. -/
def valueOf (base : Nat) (ds : List Nat) : Nat :=
  ds.foldl (fun n d => n * base + d) 0

/-- A number of exactly `n` digits. -/
def field? (base n : Nat) : Reader Nat := fun cs =>
  let ds := (cs.take n).filterMap (digit? base)
  if ds.length = n then some (valueOf base ds, cs.drop n) else none

/-! ## Escapes -/

/-- The character with a number of `n` hexadecimal digits. -/
def codePoint? (n : Nat) (cs : List Char) : Option Char :=
  match field? 16 n cs with
  | some (v, _) => if v.isValidChar then some (Char.ofNat v) else none
  | none => none

/-- The character that a letter stands for after a backslash. -/
def simpleEscape? (c : Char) : Option Char :=
  [('b', '\x08'), ('t', '\t'), ('n', '\n'), ('f', '\x0c'), ('r', '\r'), ('e', '\x1b'),
    ('\x22', '\x22'), ('\x5c', '\x5c')].lookup c

/-- How many digits a letter asks for after a backslash. -/
def escapeWidth? (c : Char) : Option Nat :=
  [('x', 2), ('u', 4), ('U', 8)].lookup c

/-- What the escape at the front of `cs` stands for, after its backslash, and how
    many characters it takes. A backslash at the end of a line stands for nothing
    and takes all white space that follows. -/
def escape? (cs : List Char) : Option (List Char × Nat) :=
  let space := cs.takeWhile fun c => isBlank c || isNewline c
  if space.contains '\n' then some ([], space.length)
  else match cs with
    | [] => none
    | c :: cs => match simpleEscape? c with
      | some d => some ([d], 1)
      | none => match escapeWidth? c with
        | some n => (codePoint? n cs).map fun d => ([d], n + 1)
        | none => none

/-- What a raw text stands for, put behind `acc` (reversed); `taken` characters
    belong to an escape already read. -/
def unescapeAux (acc : List Char) (taken : Nat) : List Char → Option (List Char)
  | [] => some acc.reverse
  | c :: cs =>
    match taken with
    | n + 1 => unescapeAux acc n cs
    | 0 =>
      if c == '\x5c' then match escape? cs with
        | some (ds, n) => unescapeAux (ds ++ acc) n cs
        | none => none
      else unescapeAux (c :: acc) 0 cs

/-- What a raw text stands for. -/
def unescape (cs : List Char) : Option (List Char) :=
  unescapeAux [] 0 cs

/-! ## Strings -/

/-- The raw text of a string on one line, up to the quote `q`, put behind `acc`
    (reversed). With `escapes` a character after a backslash belongs to the text. -/
def lineAux (q : Char) (escapes : Bool) (acc : List Char) : Reader (List Char)
  | [] => none
  | c :: cs =>
    if isNewline c then none
    else if c == q then some (acc.reverse, cs)
    else if escapes && c == '\x5c' then match cs with
      | [] => none
      | d :: cs => if isNewline d then none else lineAux q escapes (d :: c :: acc) cs
    else lineAux q escapes (c :: acc) cs

/-- The raw text of a string that `run` quotes end. The last three close the string
    and up to two before them belong to it; after an escaped backslash, a run of six
    is also taken, but not where a backslash is a character like any other. `acc`
    (reversed) is the text read so far, with the quotes. -/
def close (escapes : Bool) (acc : List Char) (run : Nat) : Option (List Char) :=
  if run ≤ 5 || (escapes && run == 6 && (acc.drop 6).head? == some '\x5c') then
    some (acc.drop 3).reverse
  else none

/-- The raw text of a string of several lines, up to three quotes `q`, put behind
    `acc` (reversed), which ends with `run` quotes. -/
def linesAux (q : Char) (escapes : Bool) (acc : List Char) (run : Nat) : Reader (List Char)
  | [] => if 3 ≤ run then (close escapes acc run).map (·, []) else none
  | c :: cs =>
    if c == q then linesAux q escapes (c :: acc) (run + 1) cs
    else if 3 ≤ run then (close escapes acc run).map (·, c :: cs)
    else if escapes && c == '\x5c' then match cs with
      | [] => none
      | d :: cs => linesAux q escapes (d :: c :: acc) 0 cs
    else linesAux q escapes (c :: acc) 0 cs

/-- A text without the line end in front. -/
def dropNewline : List Char → List Char
  | '\n' :: cs => cs
  | '\r' :: '\n' :: cs => cs
  | cs => cs

/-- Make a string of raw text. -/
def finish (escapes : Bool) (raw : List Char) (rest : List Char) : Option (String × List Char) :=
  (if escapes then unescape raw else some raw).map fun cs => (String.ofList cs, rest)

/-- A string on one line, after its opening quote. -/
def lineString? (q : Char) (escapes : Bool) : Reader String := fun cs =>
  match lineAux q escapes [] cs with
  | some (raw, rest) => finish escapes raw rest
  | none => none

/-- A string of several lines, after its opening quotes. -/
def linesString? (q : Char) (escapes : Bool) : Reader String := fun cs =>
  match linesAux q escapes [] 0 cs with
  | some (raw, rest) => finish escapes (dropNewline raw) rest
  | none => none

/-- A string after its first quote. -/
def string? (q : Char) (escapes : Bool) : Reader String := fun cs =>
  if cs.take 2 == [q, q] then linesString? q escapes (cs.drop 2)
  else lineString? q escapes cs

end CZero.Toml
