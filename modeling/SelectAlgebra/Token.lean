import SelectAlgebra.Text

/-!
# Tokens

A token is a piece of a statement with its kind.  A lexeme is a token together with the blank
text in front of it, so that a list of lexemes still holds every character of the text that lies
between its tokens.
-/

namespace SelectAlgebra

/-- The kinds of token. -/
inductive TokenKind where
  /-- A keyword or a bare name. -/
  | word
  /-- A name in quotation marks or grave accents. -/
  | quotedName
  /-- A string in apostrophes. -/
  | string
  | number
  | leftParen
  | rightParen
  | comma
  | semicolon
  | dot
  | star
  /-- Any other punctuation. -/
  | operator
deriving DecidableEq

/-- A piece of a statement. -/
structure Token where
  kind : TokenKind
  text : List Char
deriving DecidableEq

namespace Token

/-- The token is the bare word `word`, in any case.  A quoted name is never a keyword. -/
def isKeyword (t : Token) (word : String) : Bool :=
  t.kind == .word && Text.sameLetters t.text word.toList

/-- The token can stand for a table, a column or an alias. -/
def isName (t : Token) : Bool :=
  t.kind == .word || t.kind == .quotedName

end Token

/-- A token and the blank text in front of it. -/
structure Lexeme where
  gap : List Char
  token : Token
deriving DecidableEq

/-- The text that a lexeme covers. -/
def Lexeme.source (l : Lexeme) : List Char :=
  l.gap ++ l.token.text

/-! ## Positions -/

/-- The number of bytes of a text in UTF-8. -/
def byteLength (cs : List Char) : Nat :=
  (cs.map Char.utf8Size).foldr (· + ·) 0

/-- A token with the byte offsets at which it starts and stops. -/
structure LocatedToken where
  token : Token
  start : Nat
  stop : Nat
deriving DecidableEq

/-- Locates a lexeme whose gap starts at byte `offset`. -/
def Lexeme.locate (offset : Nat) (l : Lexeme) : LocatedToken :=
  let start := offset + byteLength l.gap
  ⟨l.token, start, start + byteLength l.token.text⟩

/-- Locates consecutive lexemes, the first of which starts at byte `offset`. -/
def Lexeme.locateAll (offset : Nat) : List Lexeme → List LocatedToken
  | [] => []
  | l :: ls =>
    let t := l.locate offset
    t :: locateAll t.stop ls

end SelectAlgebra
