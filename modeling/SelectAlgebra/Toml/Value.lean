import SelectAlgebra.Toml.DateTime
import SelectAlgebra.Toml.Number

/-!
# TOML values

The values of a TOML document and the ways in which a typed value may be read from one.
-/

namespace SelectAlgebra.Toml

/-- A TOML value. -/
inductive Value where
  | string (value : String)
  | integer (value : Int)
  | float (value : FloatLiteral)
  | boolean (value : Bool)
  | dateTime (value : DateTime)
  | array (elements : List Value)
  /-- The entries of a table.  No key occurs twice. -/
  | table (entries : List (String × Value))

namespace Value

/-- The value as a string. -/
def asString? : Value → Option String
  | string s => some s
  | _ => none

/-- The value as a truth value. -/
def asBool? : Value → Option Bool
  | boolean b => some b
  | _ => none

/-- The value holds nothing: an empty table or an empty array. -/
def isEmptyCollection : Value → Bool
  | array [] | table [] => true
  | _ => false

/-- The value as one of the named `values`: its name, or a table whose only key is the name and
holds nothing. -/
def asNamed? {α : Type} (values : List (String × α)) : Value → Option α
  | string s => values.lookup s
  | table [(s, payload)] => if payload.isEmptyCollection then values.lookup s else none
  | _ => none

/-- The value as a record with the given fields: what each field holds, if it is there.  A table
holds fields by name and an array holds them in order.  A date-time is a record of parts none of
which has the name of a field. -/
def asRecord? (names : List String) : Value → Option (String → Option Value)
  | table entries => some fun name => entries.lookup name
  | array elements => some fun name => (names.zip elements).lookup name
  | dateTime _ => some fun _ => none
  | _ => none

end Value

end SelectAlgebra.Toml
