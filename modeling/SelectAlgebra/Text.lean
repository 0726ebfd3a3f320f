/-!
# Texts

What is read off a text without knowing what it says: its letters apart from their case, and its
words, the maximal runs between blanks.
-/

namespace SelectAlgebra

namespace Text

/-! ## Letters -/

/-- The text with the letters A to Z in lower case. -/
def lower (cs : List Char) : List Char :=
  cs.map Char.toLower

/-- The two texts differ at most in the case of the letters A to Z. -/
def sameLetters (xs ys : List Char) : Bool :=
  lower xs == lower ys

/-- Two texts differ at most in case when they are the same in lower case. -/
theorem sameLetters_iff {xs ys : List Char} : sameLetters xs ys = true ↔ lower xs = lower ys := by
  simp [sameLetters]

/-- A text does not differ from itself. -/
theorem sameLetters_refl (xs : List Char) : sameLetters xs xs = true := by
  simp [sameLetters]

/-! ## Blanks -/

/-- The characters with the Unicode property White_Space. -/
def isBlank (c : Char) : Bool :=
  let n := c.toNat
  (0x09 ≤ n && n ≤ 0x0D) || n == 0x20 || n == 0x85 || n == 0xA0 || n == 0x1680 ||
    (0x2000 ≤ n && n ≤ 0x200A) || n == 0x2028 || n == 0x2029 || n == 0x202F || n == 0x205F ||
    n == 0x3000

/-! ## Tests of all characters -/

section Tests

variable (p : Char → Prop) [DecidablePred p]

/-- A test of all characters of a text goes through the text, not through all characters. -/
instance decidableForallMem (cs : List Char) : Decidable (∀ c ∈ cs, p c) :=
  List.decidableBAll p cs

/-- A test of the character that may be there tests at most one. -/
instance decidableForallMemOption : (c? : Option Char) → Decidable (∀ c ∈ c?, p c)
  | none => isTrue (by simp)
  | some c => decidable_of_iff (p c) (by simp)

end Tests

/-! ## Words -/

/-- The maximal runs of characters that are not blank, in order. -/
def words (cs : List Char) : List (List Char) :=
  (cs.splitOnP isBlank).filter fun w => !w.isEmpty

/-- The text with one space between its words and no blank at its ends. -/
def collapse (cs : List Char) : List Char :=
  [' '].intercalate (words cs)

/-! ## Outer blanks -/

/-- The text without the blanks at its start. -/
def trimStart (cs : List Char) : List Char :=
  cs.dropWhile isBlank

/-- The text without the blanks at its end. -/
def trimEnd (cs : List Char) : List Char :=
  (trimStart cs.reverse).reverse

/-- The text without the blanks at either end. -/
def trim (cs : List Char) : List Char :=
  trimEnd (trimStart cs)

end Text

/-- A text without the blanks at either end. -/
def trimmed (text : String) : String :=
  String.ofList (Text.trim text.toList)

/-- A text without the blanks at its end. -/
def trimmedEnd (text : String) : String :=
  String.ofList (Text.trimEnd text.toList)

end SelectAlgebra
