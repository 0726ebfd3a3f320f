/-!
# JSON values

JSON values and the ways in which a typed value may be read from one.  A record can be written
as an object, where unknown fields mean nothing, or as the array of all its fields in order; a
named value can be written as its name, or as an object whose only field has that name and holds
null.

JSON is written with one element or field on a line and two spaces for every level.  The fields
of an object are written in the order of their names.  Of the characters of a string only the
quotation mark, the backslash and those below U+0020 are escaped.
-/

namespace SelectAlgebra

/-- A JSON value. -/
inductive Json where
  | null
  | bool (value : Bool)
  /-- A number, as it is written. -/
  | number (literal : String)
  | string (value : String)
  | array (elements : List Json)
  /-- The fields of an object, in any order. -/
  | object (fields : List (String × Json))
deriving Inhabited

namespace Json

/-- The value as a string. -/
def asString? : Json → Option String
  | string s => some s
  | _ => none

/-- The value as a truth value. -/
def asBool? : Json → Option Bool
  | bool b => some b
  | _ => none

/-- The value as a list of what `read` gives for its elements. -/
def asList? {α : Type} (read : Json → Option α) : Json → Option (List α)
  | array elements => elements.mapM read
  | _ => none

/-- The value as one of the named `values`. -/
def asNamed? {α : Type} (values : List (String × α)) : Json → Option α
  | string s => values.lookup s
  | object [(s, null)] => values.lookup s
  | _ => none

/-- The value as a record with the given fields: what each field holds, if it is there. -/
def asRecord? (names : List String) : Json → Option (String → Option Json)
  | object fields => some fun name => fields.lookup name
  | array elements =>
    if elements.length = names.length then some fun name => (names.zip elements).lookup name
    else none
  | _ => none

/-- A list of strings as a JSON array. -/
def ofStrings (xs : List String) : Json :=
  array (xs.map string)

/-! ## Written strings -/

/-- The two lower-case hexadecimal digits of a number below 256. -/
def hexPair (n : Nat) : List Char :=
  [Nat.digitChar (n / 16 % 16), Nat.digitChar (n % 16)]

/-- A character as it stands in a written string. -/
def escapeChar (c : Char) : List Char :=
  if c = '\x22' then ['\\', '\x22']
  else if c = '\\' then ['\\', '\\']
  else if 0x20 ≤ c.toNat then [c]
  else if c = '\x08' then ['\\', 'b']
  else if c = '\x0C' then ['\\', 'f']
  else if c = '\n' then ['\\', 'n']
  else if c = '\r' then ['\\', 'r']
  else if c = '\t' then ['\\', 't']
  else ['\\', 'u', '0', '0'] ++ hexPair c.toNat

/-- A string in quotation marks. -/
def quote (s : String) : String :=
  String.ofList (['\x22'] ++ s.toList.flatMap escapeChar ++ ['\x22'])

/-! ## Written values -/

/-- A line end and the indentation of a level. -/
def newline (level : Nat) : String :=
  String.ofList ('\n' :: List.replicate (2 * level) ' ')

/-- Written parts between two brackets, each part on a line of its own one level further in. -/
def block (level : Nat) (opening closing : String) (parts : List String) : String :=
  if parts.isEmpty then opening ++ closing
  else
    opening ++ newline (level + 1) ++ ("," ++ newline (level + 1)).intercalate parts ++
      newline level ++ closing

/-- Puts a named part in front of the first part whose name does not come before its own. -/
def insertByName (part : String × String) : List (String × String) → List (String × String)
  | [] => [part]
  | other :: parts =>
    if part.1 ≤ other.1 then part :: other :: parts else other :: insertByName part parts

/-- Named parts in the order of their names. -/
def sortByName (parts : List (String × String)) : List (String × String) :=
  parts.foldr insertByName []

mutual

/-- The value as text, with its lines inside brackets indented below `level`. -/
def render (level : Nat) : Json → String
  | null => "null"
  | bool b => if b then "true" else "false"
  | number literal => literal
  | string s => quote s
  | array elements => block level "[" "]" (renderAll (level + 1) elements)
  | object fields =>
    block level "\x7b" "\x7d"
      ((sortByName (renderFields (level + 1) fields)).map fun f => quote f.1 ++ ": " ++ f.2)

/-- The elements of an array as texts. -/
def renderAll (level : Nat) : List Json → List String
  | [] => []
  | v :: vs => render level v :: renderAll level vs

/-- The fields of an object with their values as texts. -/
def renderFields (level : Nat) : List (String × Json) → List (String × String)
  | [] => []
  | (name, v) :: fs => (name, render level v) :: renderFields level fs

end

/-- The value as text. -/
def pretty (v : Json) : String :=
  render 0 v

end Json

end SelectAlgebra
