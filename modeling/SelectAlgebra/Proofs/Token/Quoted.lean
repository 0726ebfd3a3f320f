import SelectAlgebra.Token.Lexer

/-!
# Quoted runs

Inside a quoted run the quote character is written twice.  What follows an opening quote is
either such a doubled text up to a closing quote, behind which no further quote stands, or a
doubled text that reaches to the end.

Main results:

- Theorem `quotedTail_closed`: a run with doubled quotes stops behind its closing quote.
- Theorem `quotedTail_shape`: every run is of one of the two shapes.
- Theorem `exists_inQuotes`: a text that starts with a quote is split behind its run.
-/

namespace SelectAlgebra.Token

/-- The text with every `quote` in it written twice. -/
def double (quote : Char) : List Char → List Char
  | [] => []
  | c :: cs => if c = quote then c :: c :: double quote cs else c :: double quote cs

/-- The text between two quotes, with every quote inside written twice. -/
def inQuotes (quote : Char) (cs : List Char) : List Char :=
  quote :: (double quote cs ++ [quote])

/-- A token that opens with a quote is closed by one. -/
def Terminated (t : Token) : Prop :=
  ∀ quote cs, t.text = quote :: cs → isQuote quote = true → ∃ inside, t.text = inQuotes quote inside

/-- A run with doubled quotes stops behind its closing quote, unless another quote follows. -/
theorem quotedTail_closed {quote : Char} (inside : List Char) {rest : List Char}
    (h : rest.head? ≠ some quote) :
    quotedTail quote (double quote inside ++ quote :: rest) =
      (double quote inside ++ [quote], rest) := by
  induction inside with
  | nil =>
    cases rest with
    | nil => rfl
    | cons d ds =>
      have hd : d ≠ quote := by simpa using h
      simp [double, quotedTail, hd]
  | cons c cs ih =>
    by_cases hc : c = quote
    · simp [double, quotedTail, hc, ih]
    · have hne : double quote cs ++ quote :: rest ≠ [] := by simp
      rcases List.exists_cons_of_ne_nil hne with ⟨d, ds, hds⟩
      rw [hds] at ih
      simp [double, hc, hds, quotedTail, ih]

/-- Doubled quotes alone do not close a run. -/
theorem quotedTail_double (quote : Char) (inside : List Char) :
    quotedTail quote (double quote inside) = (double quote inside, []) := by
  induction inside with
  | nil => rfl
  | cons c cs ih =>
    by_cases hc : c = quote
    · simp [double, quotedTail, hc, ih]
    · cases hcs : double quote cs with
      | nil => simp [double, quotedTail, hc, hcs]
      | cons d ds =>
        rw [hcs] at ih
        simp [double, quotedTail, hc, hcs, ih]

/-- Every run is a doubled text, up to a closing quote or to the end of the text. -/
theorem quotedTail_shape (quote : Char) (cs : List Char) :
    (∃ inside, (quotedTail quote cs).1 = double quote inside ++ [quote] ∧
        (quotedTail quote cs).2.head? ≠ some quote) ∨
      (∃ inside, (quotedTail quote cs).1 = double quote inside ∧ (quotedTail quote cs).2 = []) := by
  fun_induction quotedTail quote cs with
  | case1 => exact Or.inr ⟨[], rfl, rfl⟩
  | case2 c =>
    by_cases hc : c = quote
    · exact Or.inl ⟨[], by simp [double, hc], by simp⟩
    · exact Or.inr ⟨[c], by simp [double, hc], rfl⟩
  | case3 c d cs hc r ih =>
    rcases ih with ⟨inside, h1, h2⟩ | ⟨inside, h1, h2⟩
    · exact Or.inl ⟨c :: inside, by simp [double, hc, r, h1], h2⟩
    · exact Or.inr ⟨c :: inside, by simp [double, hc, r, h1], h2⟩
  | case4 c cs hc r ih =>
    have hq : c = quote := by simpa using hc
    rcases ih with ⟨inside, h1, h2⟩ | ⟨inside, h1, h2⟩
    · exact Or.inl ⟨c :: inside, by simp [double, hq, r, h1], h2⟩
    · exact Or.inr ⟨c :: inside, by simp [double, hq, r, h1], h2⟩
  | case5 c d cs hc hd =>
    have hq : c = quote := by simpa using hc
    exact Or.inl ⟨[], by simp [double, hq], by simpa using hd⟩

/-- A text that starts with a quote starts with a closed run, or the run is all of it. -/
theorem exists_inQuotes (quote : Char) (cs : List Char) :
    (∃ inside rest, quote :: cs = inQuotes quote inside ++ rest ∧ rest.head? ≠ some quote) ∨
      ∃ inside, cs = double quote inside := by
  have happ := quotedTail_append quote cs
  rcases quotedTail_shape quote cs with ⟨inside, hinside, hhead⟩ | ⟨inside, hinside, hnil⟩
  · refine Or.inl ⟨inside, (quotedTail quote cs).2, ?_, hhead⟩
    rw [inQuotes, ← hinside, List.cons_append, happ]
  · rw [hinside, hnil, List.append_nil] at happ
    exact Or.inr ⟨inside, happ.symm⟩

end SelectAlgebra.Token
