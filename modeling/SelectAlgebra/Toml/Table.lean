import SelectAlgebra.Toml.Value

/-!
# Tables under construction

While a document is read, a table remembers how it came about, because that decides what may
still be added to it: a header may open a table that only longer headers have implied, and a
dotted key may add to a table that dotted keys have made.  Nothing is ever defined twice.
-/

namespace SelectAlgebra.Toml

/-- How a table came about. -/
inductive Origin where
  /-- A header names it. -/
  | header
  /-- A header names a table inside it. -/
  | implied
  /-- A dotted key names an entry inside it. -/
  | dotted
deriving DecidableEq

/-- What a key of a table under construction holds. -/
inductive Node where
  /-- A value, to which nothing can be added. -/
  | value (v : Value)
  | table (origin : Origin) (entries : List (String × Node))
  /-- The tables of an array of tables: the last one, and the earlier ones from last to first. -/
  | tables (last : List (String × Node)) (earlier : List (List (String × Node)))

/-- The entries of a table under construction, in the order in which their keys came up. -/
abbrev Entries := List (String × Node)

/-- Changes what a key holds. -/
def Entries.change (key : String) (f : Option Node → Option Node) : Entries → Option Entries
  | [] => do return [(key, ← f none)]
  | (k, n) :: es =>
    if k = key then do return (k, ← f (some n)) :: es
    else do return (k, n) :: (← change key f es)

/-! ## Dotted keys -/

/-- Adds a value under a dotted key: the keys of the path, then `key`.  The tables on the path
must not be opened by a header, and the last of them has to be one that dotted keys made. -/
def Entries.addDotted (path : List String) (key : String) (v : Value) (es : Entries) :
    Option Entries :=
  match path with
  | [] => es.change key fun
    | none => some (.value v)
    | some _ => none
  | k :: ks => es.change k fun
    | none => (addDotted ks key v []).map (.table .dotted)
    | some (.table origin sub) =>
      if origin = .header ∨ (ks = [] ∧ origin ≠ .dotted) then none
      else (addDotted ks key v sub).map (.table origin)
    | some (.tables last earlier) =>
      if ks = [] then none else (addDotted ks key v last).map (.tables · earlier)
    | some (.value _) => none

/-! ## Headers -/

/-- Changes what a header's path leads to.  The path goes through tables and through the last
table of an array of tables, and makes the tables that are not there. -/
def Entries.changeAt (path : List String) (f : Option Node → Option Node) (es : Entries) :
    Option Entries :=
  match path with
  | [] => none
  | [k] => es.change k f
  | k :: ks => es.change k fun
    | none => (changeAt ks f []).map (.table .implied)
    | some (.table origin sub) => (changeAt ks f sub).map (.table origin)
    | some (.tables last earlier) => (changeAt ks f last).map (.tables · earlier)
    | some (.value _) => none

/-- Opens the table of a header. -/
def Entries.openTable (path : List String) (es : Entries) : Option Entries :=
  es.changeAt path fun
    | none => some (.table .header [])
    | some (.table .implied sub) => some (.table .header sub)
    | some _ => none

/-- Opens one more table of an array of tables. -/
def Entries.openElement (path : List String) (es : Entries) : Option Entries :=
  es.changeAt path fun
    | none => some (.tables [] [])
    | some (.tables last earlier) => some (.tables [] (last :: earlier))
    | some _ => none

/-- Adds a value under a dotted key to the table that the last header opened; an empty header
stands for the document itself. -/
def Entries.addUnder (header path : List String) (key : String) (v : Value) (es : Entries) :
    Option Entries :=
  match header with
  | [] => es.addDotted path key v
  | _ :: _ => es.changeAt header fun
    | some (.table origin sub) => (addDotted path key v sub).map (.table origin)
    | some (.tables last earlier) => (addDotted path key v last).map (.tables · earlier)
    | _ => none

/-! ## The finished values -/

mutual

/-- The finished value of a node. -/
def Node.toValue : Node → Value
  | .value v => v
  | .table _ es => .table (entryValues es)
  | .tables last earlier => .array ((tableValues earlier).reverse ++ [.table (entryValues last)])

/-- The finished values of the entries of a table. -/
def entryValues : List (String × Node) → List (String × Value)
  | [] => []
  | (k, n) :: es => (k, n.toValue) :: entryValues es

/-- The finished values of several tables. -/
def tableValues : List (List (String × Node)) → List Value
  | [] => []
  | es :: ess => .table (entryValues es) :: tableValues ess

end

end SelectAlgebra.Toml
