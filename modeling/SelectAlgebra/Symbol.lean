import SelectAlgebra.Query

/-!
# Symbols

The signs that a written expression can hold, and the legend that says what they mean and which
SQL gives them.  The legend is a table of its own, with the glyphs that it looks for, and lists
its entries in the order in which operators nest, from the base outwards.

Main results:

- Theorem `mem_all`: the legend has every symbol.
- Theorem `entry_glyph`: the legend looks for the glyphs that are written.
-/

namespace SelectAlgebra

/-- The signs of relational algebra. -/
inductive Symbol where
  | product
  | join (kind : JoinKind)
  | selection
  | grouping
  | projection
  | sort
  /-- The sign between two predicates of a selection. -/
  | conjunction
deriving DecidableEq

namespace Symbol

/-! ## Written symbols -/

/-- The character that is written for the symbol. -/
def glyph : Symbol → Char
  | product => '×'
  | join kind => kind.glyph
  | selection => 'σ'
  | grouping => 'γ'
  | projection => 'π'
  | sort => 'τ'
  | conjunction => '∧'

/-- The glyph as a text. -/
def text (s : Symbol) : String :=
  s.glyph.toString

/-! ## The legend -/

/-- An entry of the legend. -/
structure Entry where
  /-- The character that the entry explains. -/
  glyph : Char
  name : String
  /-- What the symbol does to rows. -/
  meaning : String
  /-- The SQL construct that gives the symbol. -/
  sql : String
deriving DecidableEq

/-- The entry of the legend for a symbol. -/
def entry : Symbol → Entry
  | product =>
    ⟨'×', "Cartesian product", "Pairs every row of one relation with every row of another",
      "FROM A, B"⟩
  | join .inner =>
    ⟨'⋈', "Join", "Keeps row pairs that satisfy the condition", "[INNER] JOIN ... ON"⟩
  | join .left =>
    ⟨'⟕', "Left outer join", "Join, also keeping unmatched rows from the left",
      "LEFT [OUTER] JOIN"⟩
  | join .right =>
    ⟨'⟖', "Right outer join", "Join, also keeping unmatched rows from the right",
      "RIGHT [OUTER] JOIN"⟩
  | join .full =>
    ⟨'⟗', "Full outer join", "Join, keeping unmatched rows from both sides",
      "FULL [OUTER] JOIN"⟩
  | selection => ⟨'σ', "Selection", "Filters rows by a predicate", "WHERE / HAVING"⟩
  | grouping => ⟨'γ', "Grouping", "Partitions rows by shared column values", "GROUP BY"⟩
  | projection => ⟨'π', "Projection", "Keeps a subset of columns", "SELECT a, b"⟩
  | sort => ⟨'τ', "Sort", "Orders rows (not part of classic relational algebra)", "ORDER BY"⟩
  | conjunction => ⟨'∧', "Logical AND", "Conjunction of predicates", "AND"⟩

/-- The glyph of an entry as a text. -/
def Entry.text (e : Entry) : String :=
  e.glyph.toString

/-- The name of the symbol. -/
def name (s : Symbol) : String :=
  s.entry.name

/-- What the symbol does to rows. -/
def meaning (s : Symbol) : String :=
  s.entry.meaning

/-- The SQL construct that gives the symbol. -/
def sql (s : Symbol) : String :=
  s.entry.sql

/-- The legend. -/
def all : List Symbol :=
  [product, join .inner, join .left, join .right, join .full, selection, grouping, projection,
    sort, conjunction]

/-- The symbol that the legend lists under a glyph, given as a text. -/
def ofGlyph? (text : String) : Option Symbol :=
  all.find? fun s => text.toList == [s.entry.glyph]

/-- The symbols whose glyphs in the legend occur in the text, in the order of the legend. -/
def usedIn (text : String) : List Symbol :=
  all.filter fun s => text.toList.contains s.entry.glyph

/-- The legend has every symbol. -/
theorem mem_all (s : Symbol) : s ∈ all := by
  cases s with
  | join kind => cases kind <;> decide
  | _ => decide

/-- The legend looks for the glyphs that are written. -/
theorem entry_glyph (s : Symbol) : s.entry.glyph = s.glyph := by
  cases s with
  | join kind => cases kind <;> rfl
  | _ => rfl

end Symbol

end SelectAlgebra
