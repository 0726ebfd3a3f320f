import SelectAlgebra.Text
import SelectAlgebra.Token.Lexer

/-!
# Letter case and characters

Taking a capital letter from A to Z to its small letter keeps every class of characters that the
readers look at: blanks, quotes, digits, word characters and punctuation.  So a text in lower case
falls into the same words.

Main results:

- Theorem `toLower_invariant`: what is the same for each capital letter and its small letter.
- Theorem `toLower_eq_iff`: no letter becomes or stops being another kind of character.
- Theorem `words_lower`: the words of a text in lower case.
-/

namespace SelectAlgebra.Text

/-! ## Characters -/

/-- The codes of the capital letters. -/
def capitals : List Nat :=
  List.range' 65 26

/-- A letter in lower case is itself or a capital letter taken to lower case. -/
theorem toLower_cases (c : Char) :
    c.toLower = c ∨ ∃ n ∈ capitals, c = Char.ofNat n := by
  by_cases hc : c.toNat ∈ capitals
  · exact Or.inr ⟨c.toNat, hc, (Char.ofNat_toNat c).symm⟩
  · left
    unfold Char.toLower
    split
    · rename_i hupper
      have hlow : 65 ≤ c.toNat := hupper.1
      have hhigh : c.toNat ≤ 90 := hupper.2
      refine absurd ?_ hc
      rw [capitals, List.mem_range'_1]
      omega
    · rfl

/-- What is the same for each capital letter and its small letter is so for all characters. -/
theorem toLower_invariant {α : Type} {p : Char → α}
    (h : ∀ n ∈ capitals, p (Char.ofNat n).toLower = p (Char.ofNat n)) (c : Char) :
    p c.toLower = p c := by
  rcases toLower_cases c with hc | ⟨n, hn, rfl⟩
  · rw [hc]
  · exact h n hn

/-- No letter becomes or stops being another kind of character. -/
theorem toLower_eq_iff {c k : Char} (hk : k.isAlpha = false) : c.toLower = k ↔ c = k := by
  have halpha : ∀ n ∈ capitals,
      (Char.ofNat n).toLower.isAlpha = true ∧ (Char.ofNat n).isAlpha = true := by
    decide
  rcases toLower_cases c with hc | ⟨n, hn, rfl⟩
  · rw [hc]
  · constructor
    · rintro rfl
      rw [(halpha n hn).1] at hk
      cases hk
    · rintro rfl
      rw [(halpha n hn).2] at hk
      cases hk

/-- A letter in lower case stays as it is. -/
@[simp]
theorem toLower_toLower (c : Char) : c.toLower.toLower = c.toLower :=
  toLower_invariant (p := Char.toLower) (by decide) c

/-- A character is a blank in either case. -/
@[simp]
theorem isBlank_toLower (c : Char) : isBlank c.toLower = isBlank c :=
  toLower_invariant (by decide) c

@[simp]
theorem isQuote_toLower (c : Char) : isQuote c.toLower = isQuote c :=
  toLower_invariant (by decide) c

@[simp]
theorem isDigit_toLower (c : Char) : c.toLower.isDigit = c.isDigit :=
  toLower_invariant (by decide) c

@[simp]
theorem isWordChar_toLower (c : Char) : Token.isWordChar c.toLower = Token.isWordChar c :=
  toLower_invariant (by decide +kernel) c

@[simp]
theorem punctuation?_toLower (c : Char) : Token.punctuation? c.toLower = Token.punctuation? c :=
  toLower_invariant (by decide) c

/-- Two characters are an operator in either case. -/
@[simp]
theorem isOperatorPair_toLower (c d : Char) :
    Token.isOperatorPair c.toLower d.toLower = Token.isOperatorPair c d := by
  simp (disch := decide) [Token.isOperatorPair, toLower_eq_iff]

/-- A quote is no letter. -/
theorem isAlpha_of_isQuote {quote : Char} (h : isQuote quote = true) : quote.isAlpha = false := by
  simp only [isQuote, Bool.or_eq_true, beq_iff_eq] at h
  rcases h with (rfl | rfl) | rfl <;> rfl

/-! ## Texts -/

@[simp]
theorem lower_nil : lower [] = [] :=
  rfl

@[simp]
theorem lower_cons (c : Char) (cs : List Char) : lower (c :: cs) = c.toLower :: lower cs :=
  rfl

@[simp]
theorem lower_append (cs ds : List Char) : lower (cs ++ ds) = lower cs ++ lower ds :=
  List.map_append

@[simp]
theorem lower_lower (cs : List Char) : lower (lower cs) = lower cs := by
  simp [lower]

@[simp]
theorem sameLetters_lower (cs ds : List Char) : sameLetters (lower cs) ds = sameLetters cs ds := by
  simp [sameLetters]

/-- The classes of characters split a text in lower case at the same places. -/
theorem takeWhile_lower {p : Char → Bool} (hp : ∀ c, p c.toLower = p c) (cs : List Char) :
    (lower cs).takeWhile p = lower (cs.takeWhile p) ∧
      (lower cs).dropWhile p = lower (cs.dropWhile p) := by
  have hcomp : p ∘ Char.toLower = p := funext hp
  rw [lower, List.takeWhile_map, List.dropWhile_map, hcomp]
  exact ⟨rfl, rfl⟩

/-- The words of a text in lower case. -/
theorem words_lower (cs : List Char) : words (lower cs) = (words cs).map lower := by
  have hsplit : (lower cs).splitOnP isBlank = (cs.splitOnP isBlank).map lower := by
    induction cs with
    | nil => rfl
    | cons c cs ih =>
      rw [lower_cons, List.splitOnP_cons_eq_if_modifyHead, List.splitOnP_cons_eq_if_modifyHead,
        isBlank_toLower, ih]
      split
      · rfl
      · cases cs.splitOnP isBlank <;> rfl
  rw [words, words, hsplit, List.filter_map]
  congr 2
  funext w
  simp [lower]

end SelectAlgebra.Text
