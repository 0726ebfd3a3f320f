/-!
# Comments

A statement may hold line comments, from `--` to the end of the line, and block comments, from
`/*` to the next `*/`.  Taking them out leaves the newline of a line comment and puts one space
for a block comment, so the tokens on both sides stay apart.  Inside a quoted run nothing is a
comment.
-/

namespace SelectAlgebra

/-- The three characters that open a quoted run: apostrophe, quotation mark and grave accent. -/
def isQuote (c : Char) : Bool :=
  c == '\x27' || c == '\x22' || c == '\x60'

namespace Comment

/-- What the scan is inside of. -/
inductive Mode where
  | code
  | quoted (quote : Char)
  | line
  | block
deriving DecidableEq

/-- The text without its comments, read from a position inside `mode`.  The next occurrence of
the opening character ends a quoted run; a doubled one ends it and opens the next at once.  A
block comment that is never closed counts as closed at the end of the text. -/
def stripFrom : Mode → List Char → List Char
  | .block, [] => [' ']
  | _, [] => []
  | .code, '-' :: '-' :: cs => stripFrom .line cs
  | .code, '/' :: '*' :: cs => stripFrom .block cs
  | .code, c :: cs => c :: stripFrom (if isQuote c then .quoted c else .code) cs
  | .quoted q, c :: cs => c :: stripFrom (if c = q then .code else .quoted q) cs
  | .line, c :: cs => if c = '\n' then c :: stripFrom .code cs else stripFrom .line cs
  | .block, '*' :: '/' :: cs => ' ' :: stripFrom .code cs
  | .block, _ :: cs => stripFrom .block cs

/-- The text without its comments. -/
def strip (cs : List Char) : List Char :=
  stripFrom .code cs

end Comment

end SelectAlgebra
