import SelectAlgebra.Toml.Table

/-!
# TOML documents

A document is a sequence of lines: headers of tables and of elements of arrays of tables, and
entries under possibly dotted keys.  It is read into the table of all its values, or refused when
its text breaks the grammar or defines something twice.
-/

namespace SelectAlgebra.Toml

open Reader

/-! ## Keys -/

/-- A character of a key without quotes. -/
def isBareKeyChar (c : Char) : Bool :=
  c.isAlphanum || c == '_' || c == '-'

/-- A key without dots. -/
def simpleKey : Reader String :=
  (do return String.ofList (← run1 isBareKeyChar)) <|> basicString <|> literalString

/-- How deep arrays and inline tables are nested, and how many parts a dotted key has, has to stay
below this. -/
def depthLimit : Nat :=
  80

/-- A key, which may be dotted: the parts in front of the last one, and the last one. -/
def dottedKey : Reader (List String × String) := do
  let keys ← separated (do blanks; let k ← simpleKey; blanks; return k) (char '.')
  require (keys.length < depthLimit)
  match keys.getLast? with
  | some last => return (keys.dropLast, last)
  | none => refuse

/-! ## Values -/

/-- An entry: a key, an equals sign and a value. -/
def entry (value : Reader Value) : Reader (List String × String × Value) := do
  let (path, key) ← dottedKey
  char '='
  blanks
  let v ← value
  return (path, key, v)

/-- The table of the entries of an inline table. -/
def inlineTable? (entries : List (List String × String × Value)) : Option Value := do
  let es ← entries.foldlM (fun (es : Entries) (path, key, v) => es.addDotted path key v) []
  return .table (entryValues es)

/-- A value that holds no other values. -/
def scalar : Reader Value :=
  (do return .string (← anyString)) <|> (do return .dateTime (← dateTime)) <|>
    (do return .float (← float)) <|> (do return .integer (← integer)) <|>
    (do word "true"; return .boolean true) <|> (do word "false"; return .boolean false)

/-- An array of values.  A comma may follow the last. -/
def array (value : Reader Value) : Reader Value := do
  char '['
  let elements ← optional do
    let vs ← separated (do arraySpace; let v ← value; arraySpace; return v) (char ',')
    skip (char ',')
    return vs
  arraySpace
  char ']'
  return .array (elements.getD [])

/-- An inline table of values. -/
def inline (value : Reader Value) : Reader Value := do
  char '\x7b'
  let entries ← optional (separated (do let e ← entry value; blanks; return e) (char ','))
  blanks
  char '\x7d'
  match inlineTable? (entries.getD []) with
  | some t => return t
  | none => refuse

/-- A value whose arrays and inline tables are at most `depth` deep. -/
def value : Nat → Reader Value
  | 0 => scalar
  | depth + 1 => scalar <|> array (value depth) <|> inline (value depth)

/-! ## Lines -/

/-- What a line says. -/
inductive Line where
  /-- Nothing: the line is blank or a comment. -/
  | nothing
  /-- The header of a table. -/
  | table (path : List String)
  /-- The header of an element of an array of tables. -/
  | element (path : List String)
  /-- An entry of the table of the last header. -/
  | entry (path : List String) (key : String) (value : Value)

/-- A path of keys between two brackets. -/
def header (opening closing : String) : Reader (List String) := do
  word opening
  let (path, key) ← dottedKey
  word closing
  restOfLine
  return path ++ [key]

/-- A line with its end. -/
def line : Reader Line := do
  match ← peek with
  | some '#' => comment; lineEnd; return .nothing
  | some '[' =>
    (do return .element (← header "[[" "]]")) <|> (do return .table (← header "[" "]"))
  | some '\n' | some '\r' => newline; return .nothing
  | some _ => do
    let (path, key, v) ← entry (value (depthLimit - 1))
    restOfLine
    return .entry path key v
  | none => refuse

/-- All lines of a text, in front of which a byte order mark may stand. -/
def lines : Reader (List Line) := do
  skip (char '\uFEFF')
  blanks
  let ls ← many (do let l ← line; blanks; return l)
  atEnd
  return ls

/-! ## Documents -/

/-- What has been read of a document: the path of the last header and all entries. -/
structure Progress where
  header : List String
  entries : Entries

/-- Adds what a line says. -/
def Progress.add (p : Progress) : Line → Option Progress
  | .nothing => some p
  | .table path => (p.entries.openTable path).map (⟨path, ·⟩)
  | .element path => (p.entries.openElement path).map (⟨path, ·⟩)
  | .entry path key v => (p.entries.addUnder p.header path key v).map (⟨p.header, ·⟩)

/-- The table of the lines of a document. -/
def table? (ls : List Line) : Option Value := do
  let p ← ls.foldlM Progress.add ⟨[], []⟩
  return .table (entryValues p.entries)

/-- The table that a text writes. -/
def parse? (text : String) : Option Value := do
  let (ls, _) ← lines text.toList
  table? ls

end SelectAlgebra.Toml
