import CZero.Text.Bytes

/-!
# Paths

A path is a byte string, in which slashes separate names. A route is where a path
leads: the names of the folders from the root down to a file or folder. This module
holds what can be said of paths without looking at files.
-/

namespace CZero

/-- The names from the root down to a file or folder. -/
abbrev Route := List Bytes

namespace Path

/-- The slash. -/
def slash : UInt8 := 0x2F

/-- The full stop. -/
def dot : UInt8 := 0x2E

/-- The names of a path, after the name `cur` (reversed) that is being read and the
    names `done` (reversed). -/
def namesAux (cur : Bytes) (done : List Bytes) : Bytes → List Bytes
  | [] => (cur.reverse :: done).reverse
  | b :: bs =>
    if b == slash then namesAux [] (cur.reverse :: done) bs else namesAux (b :: cur) done bs

/-- The names of a path; they are empty next to a slash without a name. -/
def names (path : Bytes) : List Bytes :=
  namesAux [] [] path

/-- Whether a path starts at the root. -/
def isAbsolute (path : Bytes) : Bool :=
  path.head? == some slash

/-- Where a name leads from a folder, as far as names can tell. -/
def enter (r : Route) (name : Bytes) : Route :=
  if name.isEmpty || name == [dot] then r
  else if name == [dot, dot] then r.dropLast
  else r ++ [name]

/-- Where a path leads from the folder `cwd`, as far as names can tell. -/
def clean (cwd : Route) (path : Bytes) : Route :=
  (names path).foldl enter (if isAbsolute path then [] else cwd)

/-- The path of a route. -/
def ofRoute (r : Route) : Bytes :=
  slash :: [slash].intercalate r

/-- A folder and the folders around it, from the inside out. -/
def enclosing (r : Route) : List Route :=
  (List.range (r.length + 1)).map fun n => r.take (r.length - n)

/-- The end of the last name of a path from its last full stop on; empty if it has
    none. -/
def extension (path : Bytes) : Bytes :=
  let name := path.reverse.takeWhile (· != slash)
  if name.contains dot then dot :: (name.takeWhile (· != dot)).reverse else []

/-- A path with another extension in place of its own. -/
def withExtension (path ext : Bytes) : Bytes :=
  path.take (path.length - (extension path).length) ++ ext

end Path

end CZero
