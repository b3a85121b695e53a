import CZero.Toml.Moment
import CZero.Toml.Number

/-!
# Reading a document

The statements of a document stand on lines of their own. A list or a table written
inline may go over several lines and have a comma after its last item. Nesting is
bounded by an argument that the length of the text sets.
-/

namespace CZero.Toml

/-- A part of a key: bare, or a string on one line. -/
def part? : Reader String
  | [] => none
  | c :: cs =>
    if c == '\x22' then lineString? c true cs
    else if c == '\x27' then lineString? c false cs
    else
      let part := (c :: cs).takeWhile isBare
      if part.isEmpty then none else some (String.ofList part, (c :: cs).drop part.length)

/-- A dotted key and the blanks around it, after the parts in `acc` (reversed). -/
def keyAux : (fuel : Nat) → (acc : List String) → Reader Key
  | 0, _, _ => none
  | fuel + 1, acc, cs => match part? (skipBlanks cs) with
    | none => none
    | some (p, cs) => match skipBlanks cs with
      | '.' :: cs => keyAux fuel (p :: acc) cs
      | cs => some ((p :: acc).reverse, cs)

/-- A dotted key and the blanks around it. -/
def key? (fuel : Nat) : Reader Key :=
  keyAux fuel []

/-- A number or a point in time that starts with a digit. A point in time has a dash
    or a colon after its first digits. -/
def numberOrMoment? : Reader Scalar := fun cs =>
  match (cs.dropWhile (isDigit 10)).head? with
  | some c => if c == '-' || c == ':' then moment? cs else plainNumber? cs
  | none => plainNumber? cs

/-- A value without parts. -/
def scalar? : Reader Scalar
  | [] => none
  | c :: cs =>
    if c == '\x22' then (string? c true cs).map fun (s, cs) => (.string s, cs)
    else if c == '\x27' then (string? c false cs).map fun (s, cs) => (.string s, cs)
    else if c == '+' then signedNumber? false cs
    else if c == '-' then signedNumber? true cs
    else if isDigit 10 c then numberOrMoment? (c :: cs)
    else match word? "true" (c :: cs) with
      | some cs => some (.boolean true, cs)
      | none => match word? "false" (c :: cs) with
        | some cs => some (.boolean false, cs)
        | none => namedNumber? false (c :: cs)

mutual

/-- A value and the blanks before it. -/
def value? : (fuel : Nat) → Reader Expr
  | 0, _ => none
  | fuel + 1, cs => match skipBlanks cs with
    | '[' :: cs => items? fuel [] cs
    | '\x7b' :: cs => pairs? fuel [] cs
    | cs => (scalar? cs).map fun (s, cs) => (.scalar s, cs)

/-- The rest of a list, after the items in `acc` (reversed). -/
def items? : (fuel : Nat) → (acc : List Expr) → Reader Expr
  | 0, _, _ => none
  | fuel + 1, acc, cs => match skip cs with
    | ']' :: cs => some (.list acc.reverse, cs)
    | cs => match value? fuel cs with
      | none => none
      | some (x, cs) => match skip cs with
        | ',' :: cs => items? fuel (x :: acc) cs
        | ']' :: cs => some (.list (x :: acc).reverse, cs)
        | _ => none

/-- The rest of a table written inline, after the pairs in `acc` (reversed). -/
def pairs? : (fuel : Nat) → (acc : List (Key × Expr)) → Reader Expr
  | 0, _, _ => none
  | fuel + 1, acc, cs => match skip cs with
    | '\x7d' :: cs => some (.table acc.reverse, cs)
    | cs => match key? fuel cs with
      | some (k, '=' :: cs) => match value? fuel cs with
        | none => none
        | some (x, cs) => match skip cs with
          | ',' :: cs => pairs? fuel ((k, x) :: acc) cs
          | '\x7d' :: cs => some (.table ((k, x) :: acc).reverse, cs)
          | _ => none
      | _ => none

end

/-- A statement. -/
def statement? (fuel : Nat) : Reader Statement
  | '[' :: '[' :: cs => match key? fuel cs with
    | some (k, ']' :: ']' :: cs) => some (.listed k, cs)
    | _ => none
  | '[' :: cs => match key? fuel cs with
    | some (k, ']' :: cs) => some (.table k, cs)
    | _ => none
  | cs => match key? fuel cs with
    | some (k, '=' :: cs) => (value? fuel cs).map fun (x, cs) => (.pair k x, cs)
    | _ => none

/-- Whether nothing but blanks and a comment is left of the line. -/
def atLineEnd (cs : List Char) : Bool :=
  match skipBlanks cs with
  | [] => true
  | c :: _ => isNewline c || c == '#'

/-- The statements of a text, after those in `acc` (reversed). -/
def statementsAux : (fuel : Nat) → (acc : List Statement) → List Char → Option (List Statement)
  | 0, _, _ => none
  | fuel + 1, acc, cs => match skip cs with
    | [] => some acc.reverse
    | cs => match statement? fuel cs with
      | none => none
      | some (s, cs) => if atLineEnd cs then statementsAux fuel (s :: acc) cs else none

/-- The statements of a text. Between two steps of reading, inwards or onwards, at
    least every second takes a character, so twice the length bounds their number. -/
def statements? (cs : List Char) : Option (List Statement) :=
  statementsAux (2 * cs.length + 2) [] cs

end CZero.Toml
