import CZero.Toml.Statement

/-!
# What a document defines

The statements of a document are put together, one after another, into a tree of
tables. A table that was only needed on the way to another, or that a dotted key
has gone through, is *open*: it may still be defined once, by a header or by a value
of its own. Everything else is defined once only, apart from lists of tables, which
headers make longer.

The paths that were written as lists are kept too: when an open path of this kind is
defined, the new value takes the place of the list. All keys are recorded in the
order in which they are written.
-/

namespace CZero.Toml

/-- A value in a document. -/
inductive Value where
  /-- A value without parts. -/
  | scalar (s : Scalar)
  /-- A list written as a value. -/
  | list (items : List Value)
  /-- A list of tables made by headers. -/
  | tables (ts : List (List (String × Value)))
  /-- A table. -/
  | table (entries : List (String × Value))

/-- A table: its entries, each name once. -/
abbrev Table := List (String × Value)

namespace Table

/-- Set the value of a name, in its place if there is one. -/
def set (t : Table) (k : String) (v : Value) : Table :=
  match t with
  | [] => [(k, v)]
  | (l, w) :: t => if l == k then (k, v) :: t else (l, w) :: set t k v

/-- The table at the end of a path. A list of tables stands for its last table. -/
def at? (t : Table) : Key → Option Table
  | [] => some t
  | k :: ks => match t.lookup k with
    | some (.table u) => at? u ks
    | some (.tables us) => match us.getLast? with
      | some u => at? u ks
      | none => none
    | _ => none

/-- Change the table at the end of a path. -/
def update? (f : Table → Option Table) (t : Table) : Key → Option Table
  | [] => f t
  | k :: ks => match t.lookup k with
    | some (.table u) => (update? f u ks).map fun u => set t k (.table u)
    | some (.tables us) => match us.getLast? with
      | some u => (update? f u ks).map fun u => set t k (.tables (us.dropLast ++ [u]))
      | none => none
    | _ => none

/-- Set a value at the end of a path, with the tables on the way. -/
def put? (t : Table) (k : String) (v : Value) : Key → Option Table
  | [] => some (set t k v)
  | l :: ls => match t.lookup l with
    | none => (put? [] k v ls).map fun u => set t l (.table u)
    | some (.table u) => (put? u k v ls).map fun u => set t l (.table u)
    | some _ => none

end Table

/-- A document that is being put together. -/
structure Draft where
  /-- What is defined so far. -/
  root : Table := []
  /-- The open paths. -/
  openPaths : List Key := []
  /-- The paths written as lists. -/
  listPaths : List Key := []
  /-- The keys written so far, the latest first. -/
  written : List Key := []

/-- A step of putting a document together; it fails if something is defined twice. -/
abbrev Drafting := StateT Draft Option

namespace Draft

/-- Note that a path is open. -/
def openPath (p : Key) : Drafting Unit :=
  modify fun d => { d with openPaths := p :: d.openPaths }

/-- Note that a path is no longer open. -/
def closePath (p : Key) : Drafting Unit :=
  modify fun d => { d with openPaths := d.openPaths.filter (· != p) }

/-- Record a key. -/
def record (p : Key) : Drafting Unit :=
  modify fun d => { d with written := p :: d.written }

/-- Note whether the value of the name `k` in the table `ctx` is written as a list. For
    the empty name it is noted of the table itself. -/
def noteKind (ctx : Key) (k : String) (isList : Bool) : Drafting Unit :=
  let p := if k.isEmpty && !ctx.isEmpty then ctx else ctx ++ [k]
  modify fun d =>
    let others := d.listPaths.filter (· != p)
    { d with listPaths := if isList then p :: others else others }

/-- The table at a path. -/
def tableAt (p : Key) : Drafting Table := do
  match (← get).root.at? p with
  | some t => pure t
  | none => failure

/-- Change the table at a path. -/
def change (p : Key) (f : Table → Option Table) : Drafting Unit := do
  let d ← get
  match d.root.update? f p with
  | some root => set { d with root := root }
  | none => failure

/-- Set a name of the table `ctx`, whatever it was. -/
def assign (ctx : Key) (k : String) (v : Value) : Drafting Unit :=
  change ctx fun t => some (t.set k v)

/-- Define a name of the table `ctx`. If it has a value already its path must be open,
    and keeps the value unless that was written as a list. -/
def define (ctx : Key) (k : String) (v : Value) : Drafting Unit := do
  let t ← tableAt ctx
  let p := ctx ++ [k]
  if (t.lookup k).isNone then assign ctx k v
  else if (← get).openPaths.contains p then
    closePath p
    if (← get).listPaths.contains p then assign ctx k v
  else failure

/-- Follow a path of tables from the table `ctx`, making those that are missing, which
    are open. -/
def follow (ctx : Key) : Key → Drafting Unit
  | [] => pure ()
  | k :: ks => do
    let t ← tableAt ctx
    if (t.lookup k).isNone then
      openPath (ctx ++ [k])
      assign ctx k (.table [])
    follow (ctx ++ [k]) ks

/-- Define a table. -/
def defineTable (p : Key) : Drafting Unit := do
  follow [] p.dropLast
  define p.dropLast (p.getLastD "") (.table [])

/-- One more table of a list of tables. -/
def extend (k : String) (t : Table) : Option Table :=
  match t.lookup k with
  | none => some (t.set k (.tables [[]]))
  | some (.tables us) => some (t.set k (.tables (us ++ [[]])))
  | some _ => none

/-- Add a table to a list of tables. -/
def addTable (p : Key) : Drafting Unit := do
  follow [] p.dropLast
  change p.dropLast (extend (p.getLastD ""))

/-- Enter the tables that a dotted key names, from the table `ctx`; they are made if
    they are missing. -/
def enter (ctx : Key) : Key → Drafting Unit
  | [] => pure ()
  | k :: ks => do
    openPath (ctx ++ [k])
    defineTable (ctx ++ [k])
    enter (ctx ++ [k]) ks

mutual

/-- Work out the value of the name `k` in the table `ctx`. Tables written inline become
    tables of the document, those in a list as a list of tables. -/
def value (ctx : Key) (k : String) (inList : Bool) : Expr → Drafting Value
  | .scalar s => pure (.scalar s)
  | .list xs => do
    noteKind ctx k true
    items ctx k [] xs
  | .table ps => do
    let p := ctx ++ [k]
    openPath p
    if inList then addTable p else defineTable p
    pairs p [] ps

/-- The list of the values of the items, after those in `acc` (reversed). -/
def items (ctx : Key) (k : String) (acc : List Value) : List Expr → Drafting Value
  | [] => pure (.list acc.reverse)
  | x :: xs => do
    let v ← value ctx k true x
    items ctx k (v :: acc) xs

/-- Define pairs in the table `ctx`, and give the table that they make by themselves,
    after the pairs in `acc`. -/
def pairs (ctx : Key) (acc : Table) : List (Key × Expr) → Drafting Value
  | [] => pure (.table acc)
  | (k, x) :: ps => do
    let inner := ctx ++ k.dropLast
    let name := k.getLastD ""
    enter ctx k.dropLast
    record (inner ++ [name])
    let v ← value inner name false x
    define inner name v
    noteKind inner name (v matches .list _)
    match acc.put? name v k.dropLast with
    | some acc => pairs ctx acc ps
    | none => failure

end

/-- The path at which a header puts the pairs after it. -/
def header (p : Key) (add : Key → Drafting Unit) : Drafting Key := do
  add p
  modify fun d => { d with listPaths := d.listPaths.filter (· != p) }
  record p
  return p

/-- Add statements; pairs belong to the table `ctx` until the next header. -/
def statements (ctx : Key) : List Statement → Drafting Unit
  | [] => pure ()
  | .table p :: ss => do statements (← header p defineTable) ss
  | .listed p :: ss => do statements (← header p addTable) ss
  | .pair k x :: ss => do
    let _ ← pairs ctx [] [(k, x)]
    statements ctx ss

end Draft

/-- What a document defines. -/
structure Document where
  /-- Its tables. -/
  root : Table
  /-- Its keys, in the order in which they are written. -/
  keys : List Key

/-- Read a document. -/
def Document.parse? (bs : Bytes) : Option Document := do
  let ss ← statements? (← chars? bs)
  let (_, d) ← (Draft.statements [] ss).run {}
  return { root := d.root, keys := d.written.reverse }

end CZero.Toml
