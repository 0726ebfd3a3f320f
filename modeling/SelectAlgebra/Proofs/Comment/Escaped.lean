import SelectAlgebra.Proofs.Comment.QuotedRuns

/-!
# Texts in quotes

Every text can be put in quotes, when each quote of the same kind in it is written twice.  What it
holds then has no say: the reader of tokens takes it for one token and the comment scan keeps it as
it is, be there other quotes, blanks or the marks of comments in it.  Without the quote that closes
it, it reaches to the end of the text.

Main results:

- Theorem `ofText_of_next?`: the tokens of a text are the first one and, moved behind it, the rest.
- Theorem `strip_unclosed`: the comment scan keeps a quoted run that nothing closes.
- Theorem `scan_escaped`: a text in quotes for the reader of tokens, the comment scan and both.
-/

namespace SelectAlgebra

/-- The token that the quote opens, with its text. -/
def Token.quotedBy (quote : Char) (text : List Char) : Token :=
  ⟨if quote = '\x27' then .string else .quotedName, text⟩

namespace LocatedToken

/-- The token at the start of a text. -/
def atStart (t : Token) : LocatedToken :=
  ⟨t, 0, byteLength t.text⟩

variable {cs rest : List Char} {t : Token}

/-- A token at the start of a text has the offset zero. -/
theorem locate_eq_atStart (t : Token) : (⟨[], t⟩ : Lexeme).locate 0 = atStart t := by
  simp [Lexeme.locate, atStart]

/-- The tokens of a text are the first one and, moved behind it, those of the text that follows. -/
theorem ofText_of_next? (h : Lexeme.next? cs = some (⟨[], t⟩, rest)) :
    ofText cs = atStart t :: (ofText rest).map (shift (byteLength t.text)) := by
  have hmove := Lexeme.locateAll_add (byteLength t.text) 0 (Lexeme.ofText rest)
  rw [ofText, Lexeme.ofText_eq_cons h, Lexeme.locateAll_cons, locate_eq_atStart, Nat.zero_add]
  exact congrArg _ hmove

/-- The first token of a text is the next one, if no blank stands in front of it. -/
theorem first?_of_next? (h : Lexeme.next? cs = some (⟨[], t⟩, rest)) :
    first? cs = some (atStart t) := by
  rw [first?, h, Option.map_some, locate_eq_atStart]

end LocatedToken

namespace Comment

variable {quote : Char} {rest : List Char}

/-- The comment scan keeps a quoted run that nothing closes. -/
theorem strip_unclosed (inside : List Char) (hquote : isQuote quote = true) :
    strip (quote :: Token.double quote inside) = quote :: Token.double quote inside := by
  rw [strip, stripFrom_code_cons (opensComment_of_isQuote _ hquote), if_pos hquote,
    (scan_double inside hquote).1]

/-- In quotes a text is the first token in front of any text that does not start with the quote. -/
theorem next?_escaped (inside : List Char) (hquote : isQuote quote = true)
    (hrest : rest.head? ≠ some quote) :
    Lexeme.next? (Token.inQuotes quote inside ++ rest) =
      some (⟨[], Token.quotedBy quote (Token.inQuotes quote inside)⟩, rest) := by
  have hgap : ∀ c ∈ [], Text.isBlank c = true := by simp
  exact (Lexeme.scan_inQuotes inside hquote hrest hgap).1

/-- Behind a quote that nothing closes, a text is one token with it. -/
theorem next?_unclosed (inside : List Char) (hquote : isQuote quote = true) :
    Lexeme.next? (quote :: Token.double quote inside) =
      some (⟨[], Token.quotedBy quote (quote :: Token.double quote inside)⟩, []) := by
  have hblank := Lexeme.isBlank_of_isQuote hquote
  rw [Lexeme.next?_cons _ hblank, Token.read, if_pos hquote, Token.quotedTail_double]
  rfl

open LocatedToken (atStart shift)

/-- A text in quotes, with each quote of the kind in it written twice, is the first token of every
text that it stands in front of and that does not go on with the quote, and the comment scan keeps
it; so it is the first token of what the scan leaves too.  Without the quote that closes it, it is
the only token, and the scan keeps it as well. -/
theorem scan_escaped {quote : Char} (hquote : isQuote quote = true) (inside : List Char) :
    (∀ rest : List Char, rest.head? ≠ some quote →
      let written := Token.inQuotes quote inside
      let first := atStart (Token.quotedBy quote written)
      LocatedToken.first? (written ++ rest) = some first ∧
        LocatedToken.ofText (written ++ rest) =
          first :: (LocatedToken.ofText rest).map (shift first.stop) ∧
        strip (written ++ rest) = written ++ strip rest ∧
        LocatedToken.ofText (strip (written ++ rest)) =
          first :: (LocatedToken.ofText (strip rest)).map (shift first.stop)) ∧
      let opened := quote :: Token.double quote inside
      LocatedToken.ofText opened = [atStart (Token.quotedBy quote opened)] ∧
        strip opened = opened := by
  constructor
  · intro rest hrest written first
    have hgap : ∀ c ∈ [], Text.isBlank c = true := by simp
    have hnext := next?_escaped inside hquote hrest
    have hkeep : strip (written ++ rest) = written ++ strip rest :=
      (Lexeme.scan_inQuotes inside hquote hrest hgap).2
    -- what the scan leaves of the rest does not start with the quote either
    have hbehind := next?_escaped inside hquote (head?_strip_ne hquote hrest)
    rw [hkeep]
    exact ⟨LocatedToken.first?_of_next? hnext, LocatedToken.ofText_of_next? hnext, rfl,
      LocatedToken.ofText_of_next? hbehind⟩
  · have hnext := next?_unclosed inside hquote
    constructor
    · rw [LocatedToken.ofText_of_next? hnext, LocatedToken.ofText, Lexeme.ofText_eq_nil rfl]
      rfl
    · exact strip_unclosed inside hquote

/-- A string with an apostrophe, other quotes and the marks of comments in it, in front of a
comment. -/
theorem scan_escaped_marks :
    isQuote '\x27' = true ∧ "/* c */;".toList.head? ≠ some '\x27' ∧
      strip "'it''s -- \"/*`'/* c */;".toList = "'it''s -- \"/*`' ;".toList ∧
      LocatedToken.ofText "'it''s".toList = [⟨⟨.string, "'it''s".toList⟩, 0, 6⟩] := by
  have hquote : isQuote '\x27' = true := by decide
  have hrest : "/* c */;".toList.head? ≠ some '\x27' := by decide
  have hclosed := (scan_escaped hquote "it's -- \"/*`".toList).1 "/* c */;".toList hrest
  have hopen := (scan_escaped hquote "it's".toList).2
  exact ⟨hquote, hrest, hclosed.2.2.1, hopen.1⟩

end Comment

end SelectAlgebra
