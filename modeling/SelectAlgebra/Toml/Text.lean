import SelectAlgebra.Toml.Reader

/-!
# Strings of TOML

A string stands in quotation marks, with escapes, or in apostrophes, without.  With its quotes
written three times it may go over several lines: a line end right behind the opening quotes is
left out, and one or two quotes may stand anywhere in it, also in front of the closing ones.
-/

namespace SelectAlgebra.Toml

open Reader

/-! ## Characters -/

/-- A character that stands for itself between quotation marks. -/
def isBasicChar (c : Char) : Bool :=
  isPlain c && c != '\x22' && c != '\\'

/-- A character that stands for itself between apostrophes. -/
def isLiteralChar (c : Char) : Bool :=
  isPlain c && c != '\x27'

/-- A hexadecimal digit. -/
def isHexDigit (c : Char) : Bool :=
  c.isDigit || ('a' ≤ c && c ≤ 'f') || ('A' ≤ c && c ≤ 'F')

/-- The value of a digit of any base up to sixteen. -/
def digitValue (c : Char) : Nat :=
  if c.isDigit then c.toNat - '0'.toNat else c.toLower.toNat - 'a'.toNat + 10

/-- The number that digits write in a base. -/
def numeral (base : Nat) (digits : List Char) : Nat :=
  digits.foldl (fun n c => n * base + digitValue c) 0

/-- The character whose code point is written with the given number of hexadecimal digits. -/
def codePoint (digits : Nat) : Reader Char := do
  let n := numeral 16 (← exactly isHexDigit digits)
  require (decide n.isValidChar)
  return Char.ofNat n

/-- A backslash and what it escapes. -/
def escape : Reader Char := do
  char '\\'
  match ← one fun _ => true with
  | 'b' => return '\x08'
  | 't' => return '\t'
  | 'n' => return '\n'
  | 'f' => return '\x0C'
  | 'r' => return '\r'
  | '\x22' => return '\x22'
  | '\\' => return '\\'
  | 'u' => codePoint 4
  | 'U' => codePoint 8
  | _ => refuse

/-! ## Strings on one line -/

/-- A string in quotation marks. -/
def basicString : Reader String := do
  char '\x22'
  let pieces ← many (run1 isBasicChar <|> (do return [← escape]))
  char '\x22'
  return String.ofList pieces.flatten

/-- A string in apostrophes. -/
def literalString : Reader String := do
  char '\x27'
  let cs ← run isLiteralChar
  char '\x27'
  return String.ofList cs

/-! ## Strings over several lines -/

/-- One or two quotes inside a string whose quotes are written three times. -/
def innerQuotes (quote : Char) : Reader (List Char) := do
  let quotes ← run1 (· == quote)
  require (quotes.length < 3)
  return quotes

/-- The quotes that close a string whose quotes are written three times.  Gives the one or two
quotes in front of them that still belong to the string. -/
def closingQuotes (quote : Char) : Reader (List Char) :=
  fun cs =>
    let count := min (cs.takeWhile (· == quote)).length 5
    if count < 3 then none else some (List.replicate (count - 3) quote, cs.drop count)

/-- A backslash at the end of a line and all blanks and line ends behind it. -/
def lineJoin : Reader Unit := do
  char '\\'
  blanks
  newline
  let _ ← many (newline <|> (do let _ ← run1 isBlank))

/-- A string with its quotes written three times, made of pieces and quotes. -/
def multiline (quote : Char) (piece : Reader (List Char)) : Reader String := do
  let _ ← exactly (· == quote) 3
  skip newline
  let pieces ← many (piece <|> innerQuotes quote)
  let last ← closingQuotes quote
  return String.ofList (pieces.flatten ++ last)

/-- A string with three quotation marks on each side. -/
def multilineBasicString : Reader String :=
  multiline '\x22' <|
    run1 isBasicChar <|> (do lineJoin; return []) <|> (do return [← escape]) <|>
      (do newline; return ['\n'])

/-- A string with three apostrophes on each side. -/
def multilineLiteralString : Reader String :=
  multiline '\x27' (run1 isLiteralChar <|> (do newline; return ['\n']))

/-- A string of any kind. -/
def anyString : Reader String :=
  multilineBasicString <|> basicString <|> multilineLiteralString <|> literalString

end SelectAlgebra.Toml
