import SelectAlgebra.Proofs.Query.Acceptance
import SelectAlgebra.Proofs.Statement.Depth

/-!
# The first statement of a text

A text may go on behind the semicolon that ends its first statement.  All of it is scanned for
comments and read as tokens before the statement is cut off, but nothing of what stands behind the
semicolon gets into the statement: neither an open quote nor a parenthesis reaches back.

Main results:

- Theorem `Lexeme.exists_ofText_semicolon`: the lexemes in front of a semicolon are those of the
  text in front of it.
- Theorem `Run.ofText_semicolon`: a semicolon ends the statement of the text in front of it.
- Theorem `Query.ofText?_semicolon`: what stands behind a semicolon has no say in the query.
-/

namespace SelectAlgebra

open Comment

/-! ## In front of a semicolon -/

variable {cs : List Char}

/-- A semicolon ends every token. -/
theorem Token.startsWithBreak_semicolon (rest : List Char) :
    Token.StartsWithBreak (';' :: rest) := by
  rintro c ⟨⟩
  rfl

/-- What follows a semicolon behind a closed text is scanned on its own. -/
theorem Comment.strip_semicolon (h : Closed cs) (rest : List Char) :
    strip (cs ++ ';' :: rest) = strip cs ++ ';' :: strip rest := by
  have hseam : ∀ c ∈ (';' :: rest).head?, c ≠ '-' ∧ c ≠ '*' := by
    rintro c ⟨⟩
    decide
  have hmark : opensComment (';' :: rest) = false := opensComment_of_isPlain rest (by decide)
  rw [strip, stripFrom_append hseam h, stripFrom_code_cons hmark]
  rfl

namespace Lexeme

/-- In front of a semicolon, a text with closed tokens is read as if it stood alone. -/
theorem exists_ofText_semicolon (h : ∀ l ∈ ofText cs, l.token.Terminated) (rest : List Char) :
    ∃ gap, ofText (cs ++ ';' :: rest) =
      ofText cs ++ ⟨gap, ⟨.semicolon, [';']⟩⟩ :: ofText rest := by
  rcases Reads.of_ofText cs with ⟨blank, hblank, hreads⟩
  have hmark : next? (blank ++ ';' :: rest) = some (⟨blank, ⟨.semicolon, [';']⟩⟩, rest) :=
    next?_gap_append hblank rfl
  refine ⟨blank, ?_⟩
  rw [(hreads.before_break (Token.startsWithBreak_semicolon rest) h).ofText, ofText_eq_cons hmark]

/-- A semicolon does not change which word a closed text starts with. -/
theorem next?_semicolon (h : Closed cs) (rest : List Char) (word : String) :
    (next? (cs ++ ';' :: rest)).any (·.1.token.isKeyword word) =
      (next? cs).any (·.1.token.isKeyword word) := by
  cases hnext : next? cs with
  | none =>
    have hmark : next? (cs ++ ';' :: rest) = some (⟨cs, ⟨.semicolon, [';']⟩⟩, rest) :=
      next?_gap_append (next?_eq_none_iff.1 hnext) rfl
    rw [hmark]
    rfl
  | some read =>
    rcases read with ⟨l, behind⟩
    have hclosed : behind = [] → l.token.Terminated := by
      rintro rfl
      exact terminated_of_next?_nil h hnext
    rw [next?_before_break (Token.startsWithBreak_semicolon rest) hclosed hnext]
    rfl

end Lexeme

/-! ## The statement in front of a semicolon -/

namespace Run

/-- The statement of the text is over at its end: no parenthesis is open there, or a semicolon
outside parentheses has ended the statement before. -/
def OverAtEnd (cs : List Char) : Prop :=
  Lexeme.leftOpen 0 (Lexeme.ofText (strip cs)) = 0 ∨
    ∃ p ∈ Run.place 0 (Lexeme.ofText (strip cs)), p.isTop .semicolon = true

/-- A semicolon ends the statement of a closed text in front of it. -/
theorem ofText_semicolon (h : Closed cs) (hover : OverAtEnd cs) (rest : List Char) :
    ofText (cs ++ ';' :: rest) = ofText cs := by
  have hclosed : ∀ l ∈ Lexeme.ofText (strip cs), l.token.Terminated :=
    Lexeme.terminated_of_closed (strip_strip cs) h.strip
  rcases Lexeme.exists_ofText_semicolon hclosed (strip rest) with ⟨gap, hlexemes⟩
  rw [ofText, ofText, strip_semicolon h, hlexemes, place_append_leftOpen]
  rcases hover with hdepth | ⟨p, hp, hmark⟩
  · have hends : (place 0 (⟨gap, ⟨.semicolon, [';']⟩⟩ ::
        Lexeme.ofText (strip rest))).takeWhile (fun p => !p.isTop .semicolon) = [] := rfl
    rw [hdepth, List.takeWhile_append, hends, List.append_nil]
    split
    · rename_i hall
      exact ((List.takeWhile_prefix _).eq_of_length hall).symm
    · rfl
  · -- a semicolon that stands before has ended the statement
    rw [List.takeWhile_append, if_neg]
    intro hall
    have hkept := (List.takeWhile_prefix _).eq_of_length hall
    rw [← hkept] at hp
    have := List.all_eq_true.1 (List.all_takeWhile) p hp
    rw [hmark] at this
    cases this

end Run

namespace Query

/-- What stands behind a semicolon has no say in the query of a text, which may be no query at all,
when no quoted run and no comment is open in front of the semicolon and the statement is over. -/
theorem ofText?_semicolon {text : String} (rest : String) (h : Closed text.toList)
    (hover : Run.OverAtEnd text.toList) : ofText? (text ++ ";" ++ rest) = ofText? text := by
  have htext : (text ++ ";" ++ rest).toList = text.toList ++ ';' :: rest.toList := by
    simp
  rw [ofText?, ofText?, htext, ofChars?, ofChars?, Lexeme.next?_semicolon h,
    Run.ofText_semicolon h hover]

/-- A statement that closes a parenthesis too many and ends in a line comment. -/
def unmatched : String :=
  "SELECT f(a, ')') FROM t) WHERE b = 'x;' -- c\n"

/-- Neither an open quote nor a parenthesis behind the semicolon reaches back. -/
theorem ofText?_semicolon_unmatched :
    Closed unmatched.toList ∧ Run.OverAtEnd unmatched.toList ∧
      ofText? (unmatched ++ ";" ++ ") FROM u, (' -- /*") = ofText? unmatched ∧
      ofText? unmatched = some ⟨false, ["t"], ["f(a, ')')"], ["b = 'x;'"], [], [], [], []⟩ := by
  have hclosed : Closed unmatched.toList := by decide +kernel
  have hover : Run.OverAtEnd unmatched.toList := Or.inl (by decide +kernel)
  exact ⟨hclosed, hover, ofText?_semicolon ") FROM u, (' -- /*" hclosed hover, by decide +kernel⟩

end Query

end SelectAlgebra
