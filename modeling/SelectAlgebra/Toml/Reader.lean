/-!
# Readers

A reader takes a value off the front of a text or refuses.  A choice goes on with its second
reader, from the same place, when the first one refuses.

In TOML only space and tab are blank, a line ends with a line feed that a carriage return may
precede, and a comment holds no control character but the tab.
-/

namespace SelectAlgebra.Toml

/-- Reads a value from the front of a text and gives it with the text behind it. -/
abbrev Reader (α : Type) := StateT (List Char) Option α

namespace Reader

/-- Refuses every text. -/
def refuse {α : Type} : Reader α :=
  fun _ => none

/-- Refuses unless the condition holds; takes nothing. -/
def require (condition : Bool) : Reader Unit :=
  fun cs => if condition then some ((), cs) else none

/-- The next character, which stays in the text. -/
def peek : Reader (Option Char) :=
  fun cs => some (cs.head?, cs)

/-- A character of a class. -/
def one (p : Char → Bool) : Reader Char
  | [] => none
  | c :: cs => if p c then some (c, cs) else none

/-- The given character. -/
def char (c : Char) : Reader Unit := do
  let _ ← one (· == c)

/-- The given text. -/
def word (w : String) : Reader Unit :=
  fun cs => if w.toList.isPrefixOf cs then some ((), cs.drop w.toList.length) else none

/-- The longest run of characters of a class, which may be empty. -/
def run (p : Char → Bool) : Reader (List Char) :=
  fun cs => some (cs.takeWhile p, cs.dropWhile p)

/-- The longest run of characters of a class, of at least one. -/
def run1 (p : Char → Bool) : Reader (List Char) := do
  let cs ← run p
  require !cs.isEmpty
  return cs

/-- The given number of characters of a class. -/
def exactly (p : Char → Bool) : Nat → Reader (List Char)
  | 0 => return []
  | n + 1 => do
    let c ← one p
    let cs ← exactly p n
    return c :: cs

/-- The end of the text. -/
def atEnd : Reader Unit :=
  fun cs => if cs.isEmpty then some ((), cs) else none

/-- At most `bound` values, one after another, as many as the reader finds. -/
def upTo {α : Type} (bound : Nat) (read : Reader α) : Reader (List α) :=
  match bound with
  | 0 => return []
  | n + 1 =>
    (do
      let a ← read
      let as ← upTo n read
      return a :: as) <|> return []

/-- As many values, one after another, as the reader finds.  The reader must take at least one
character for each. -/
def many {α : Type} (read : Reader α) : Reader (List α) :=
  fun cs => upTo cs.length read cs

/-- One or more values with separators between them.  A separator that no value follows stays in
the text. -/
def separated {α : Type} (read : Reader α) (separator : Reader Unit) : Reader (List α) := do
  let a ← read
  let as ← many do
    separator
    read
  return a :: as

/-- Takes a value if there is one. -/
def skip {α : Type} (read : Reader α) : Reader Unit := do
  let _ ← optional read

end Reader

/-! ## Blanks, line ends and comments -/

open Reader

/-- Space and tab. -/
def isBlank (c : Char) : Bool :=
  c == ' ' || c == '\t'

/-- A character that a comment, and each kind of string before its own exceptions, may hold: all
but the control characters, of which only the tab is allowed. -/
def isPlain (c : Char) : Bool :=
  c == '\t' || (0x20 ≤ c.toNat && c.toNat != 0x7F)

/-- Any number of blanks. -/
def blanks : Reader Unit := do
  let _ ← run isBlank

/-- The end of a line. -/
def newline : Reader Unit :=
  char '\n' <|> word "\r\n"

/-- The end of a line or of the text. -/
def lineEnd : Reader Unit :=
  newline <|> atEnd

/-- A comment, without the end of its line. -/
def comment : Reader Unit := do
  char '#'
  let _ ← run isPlain

/-- What may follow on the line of a header or an entry. -/
def restOfLine : Reader Unit := do
  blanks
  skip comment
  lineEnd

/-- Blanks, line ends and comments, as they may stand between the elements of an array. -/
def arraySpace : Reader Unit := do
  let _ ← many ((do let _ ← run1 isBlank) <|> newline <|> (do comment; newline))

end SelectAlgebra.Toml
