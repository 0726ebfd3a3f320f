import SelectAlgebra.Comment
import SelectAlgebra.Text.Alphanumeric
import SelectAlgebra.Token

/-!
# Reading tokens

Every text is a sequence of lexemes and a blank rest.  A token is read from its first character:
a quote opens a quoted run, an ASCII digit a number, another word character a bare word, and
anything else is punctuation.  Reading never fails; a quoted run that is not closed reaches to
the end of the text.

Main results:

- Theorem `Token.read_append`: a token and the text after it make up the text that was read.
- Theorem `Lexeme.next?_length`: every token shortens the text.
- Theorems `Lexeme.ofText_eq_nil` and `Lexeme.ofText_eq_cons`: how the lexemes of a text unfold.
-/

namespace SelectAlgebra

namespace Token

/-! ## Runs of characters -/

/-- Splits the text after an opening quote behind the quote that closes the run.  A quote that is
written twice stands for itself and does not close. -/
def quotedTail (quote : Char) : List Char → List Char × List Char
  | [] => ([], [])
  | [c] => ([c], [])
  | c :: d :: cs =>
    if c ≠ quote then
      let r := quotedTail quote (d :: cs)
      (c :: r.1, r.2)
    else if d = quote then
      let r := quotedTail quote cs
      (c :: d :: r.1, r.2)
    else ([c], d :: cs)

/-- Splits the text behind the digits at its start, and behind a point and the digits after it if
there are any. -/
def numberRun (cs : List Char) : List Char × List Char :=
  let whole := cs.takeWhile Char.isDigit
  let rest := cs.dropWhile Char.isDigit
  match rest with
  | '.' :: d :: ds =>
    if d.isDigit then
      (whole ++ '.' :: (d :: ds).takeWhile Char.isDigit, (d :: ds).dropWhile Char.isDigit)
    else (whole, rest)
  | _ => (whole, rest)

/-- A character of a bare word. -/
def isWordChar (c : Char) : Bool :=
  Text.isAlphanumeric c || c == '_' || c == '$' || c == '@' || c == '#'

/-- The operators of two characters. -/
def isOperatorPair (c d : Char) : Bool :=
  [('<', '='), ('>', '='), ('<', '>'), ('!', '='), ('|', '|'), (':', ':')].contains (c, d)

/-! ## One token -/

/-- The kind of a punctuation character that always stands alone. -/
def punctuation? : Char → Option TokenKind
  | '(' => some .leftParen
  | ')' => some .rightParen
  | ',' => some .comma
  | ';' => some .semicolon
  | '.' => some .dot
  | '*' => some .star
  | _ => none

/-- The punctuation token that starts with `c`, and the text after it. -/
def readPunctuation (c : Char) (cs : List Char) : Token × List Char :=
  match punctuation? c with
  | some kind => (⟨kind, [c]⟩, cs)
  | none =>
    match cs with
    | d :: ds =>
      if isOperatorPair c d then (⟨.operator, [c, d]⟩, ds) else (⟨.operator, [c]⟩, d :: ds)
    | [] => (⟨.operator, [c]⟩, [])

/-- The token at the start of the text `c :: cs`, and the text after it. -/
def read (c : Char) (cs : List Char) : Token × List Char :=
  if isQuote c then
    let r := quotedTail c cs
    (⟨if c = '\x27' then .string else .quotedName, c :: r.1⟩, r.2)
  else if c.isDigit then
    let r := numberRun (c :: cs)
    (⟨.number, r.1⟩, r.2)
  else if isWordChar c then
    (⟨.word, c :: cs.takeWhile isWordChar⟩, cs.dropWhile isWordChar)
  else readPunctuation c cs

/-! ## Nothing is lost -/

/-- A text is made up of the rest of a quoted text and of what follows it. -/
theorem quotedTail_append (quote : Char) (cs : List Char) :
    (quotedTail quote cs).1 ++ (quotedTail quote cs).2 = cs := by
  fun_induction quotedTail quote cs with
  | case1 | case2 | case5 => rfl
  | case3 c d cs h r ih => simpa using ih
  | case4 c cs h r ih => simpa using ih

/-- A text is made up of a number and of what follows it. -/
theorem numberRun_append (cs : List Char) : (numberRun cs).1 ++ (numberRun cs).2 = cs := by
  unfold numberRun
  dsimp only
  split
  · rename_i d ds h
    split
    · have := List.takeWhile_append_dropWhile (p := Char.isDigit) (l := cs)
      rw [List.append_assoc, List.cons_append, List.takeWhile_append_dropWhile, ← h, this]
    · exact List.takeWhile_append_dropWhile
  · exact List.takeWhile_append_dropWhile

/-- A text is made up of punctuation and of what follows it. -/
theorem readPunctuation_append (c : Char) (cs : List Char) :
    (readPunctuation c cs).1.text ++ (readPunctuation c cs).2 = c :: cs := by
  unfold readPunctuation
  split
  · rfl
  · split
    · split <;> rfl
    · rfl

/-- A token and the text after it make up the text that was read. -/
theorem read_append (c : Char) (cs : List Char) :
    (read c cs).1.text ++ (read c cs).2 = c :: cs := by
  unfold read
  split
  · simp [quotedTail_append]
  · split
    · exact numberRun_append (c :: cs)
    · split
      · simp [List.takeWhile_append_dropWhile]
      · exact readPunctuation_append c cs

/-- Punctuation is not empty. -/
theorem readPunctuation_text_ne_nil (c : Char) (cs : List Char) :
    (readPunctuation c cs).1.text ≠ [] := by
  unfold readPunctuation
  split
  · simp
  · split
    · split <;> simp
    · simp

/-- A token holds at least one character. -/
theorem read_text_ne_nil (c : Char) (cs : List Char) : (read c cs).1.text ≠ [] := by
  unfold read
  split
  · simp
  · split
    · rename_i h
      have : (c :: cs).takeWhile Char.isDigit ≠ [] := by simp [h]
      dsimp only [numberRun]
      split
      · split <;> simp_all
      · exact this
    · split
      · simp
      · exact readPunctuation_text_ne_nil c cs

/-- The text after a token is shorter than the text that was read. -/
theorem read_length (c : Char) (cs : List Char) : (read c cs).2.length ≤ cs.length := by
  have h := congrArg List.length (read_append c cs)
  have hpos := List.length_pos_iff.2 (read_text_ne_nil c cs)
  simp only [List.length_append, List.length_cons] at h
  omega

end Token

namespace Lexeme

/-! ## All tokens -/

/-- The first lexeme of a text and the text after it; none when the text is blank. -/
def next? (cs : List Char) : Option (Lexeme × List Char) :=
  match cs.dropWhile Text.isBlank with
  | [] => none
  | c :: rest =>
    let r := Token.read c rest
    some (⟨cs.takeWhile Text.isBlank, r.1⟩, r.2)

/-- Every token shortens the text. -/
theorem next?_length {cs rest : List Char} {l : Lexeme} (h : next? cs = some (l, rest)) :
    rest.length < cs.length := by
  unfold next? at h
  split at h
  · simp at h
  · rename_i c tail hd
    have hlen := congrArg List.length
      (List.takeWhile_append_dropWhile (p := Text.isBlank) (l := cs))
    rw [hd] at hlen
    have := Token.read_length c tail
    simp only [Option.some.injEq, Prod.mk.injEq] at h
    rw [← h.2]
    simp only [List.length_append, List.length_cons] at hlen
    omega

/-- The lexemes of a text, in order. -/
def ofText (cs : List Char) : List Lexeme :=
  match _h : next? cs with
  | none => []
  | some (l, rest) => l :: ofText rest
termination_by cs.length
decreasing_by exact next?_length (by assumption)

/-- A blank text has no lexemes. -/
theorem ofText_eq_nil {cs : List Char} (h : next? cs = none) : ofText cs = [] := by
  rw [ofText]
  split
  · rfl
  · rename_i h'
    rw [h] at h'
    exact absurd h' (by simp)

/-- The lexemes of a text are the first one and those of the text after it. -/
theorem ofText_eq_cons {cs rest : List Char} {l : Lexeme} (h : next? cs = some (l, rest)) :
    ofText cs = l :: ofText rest := by
  rw [ofText]
  split
  · rename_i h'
    rw [h] at h'
    exact absurd h' (by simp)
  · rename_i l' rest' h'
    rw [h] at h'
    cases h'
    rfl

end Lexeme

end SelectAlgebra
