import SelectAlgebra.Proofs.Comment.Lexemes

/-!
# Lexemes that are read back

Lexemes are legible when their source is read back as these lexemes, and holds no comment, in
front of every text that starts with a break character.  Legible lexemes can be written one after
another wherever a break stands between them.

Main results:

- Theorem `Legible.append`: legible lexemes with a break between them are legible.
- Theorem `Legible.ofText`: the lexemes of the source of legible lexemes.
- Theorem `legible_ofText`: the lexemes of a closed text without comments are legible.
-/

namespace SelectAlgebra

namespace Lexeme

open Comment

/-- The text that consecutive lexemes cover. -/
def sourceAll (ls : List Lexeme) : List Char :=
  ls.flatMap source

@[simp]
theorem sourceAll_nil : sourceAll [] = [] :=
  rfl

@[simp]
theorem sourceAll_cons (l : Lexeme) (ls : List Lexeme) :
    sourceAll (l :: ls) = l.source ++ sourceAll ls :=
  rfl

@[simp]
theorem sourceAll_append (ls ms : List Lexeme) :
    sourceAll (ls ++ ms) = sourceAll ls ++ sourceAll ms := by
  simp [sourceAll]

/-- The source of the lexemes is read back and holds no comment, in front of `b`. -/
def LegibleBefore (b : List Char) (ls : List Lexeme) : Prop :=
  strip (sourceAll ls ++ b) = sourceAll ls ++ strip b ∧ Reads (sourceAll ls ++ b) ls b

/-- The source of the lexemes is read back and holds no comment, in front of every break. -/
def Legible (ls : List Lexeme) : Prop :=
  ∀ b, Token.StartsWithBreak b → LegibleBefore b ls

/-! ## Putting lexemes together -/

section Append

variable {ls ms : List Lexeme} {b : List Char}

theorem LegibleBefore.nil (b : List Char) : LegibleBefore b [] :=
  ⟨rfl, .done⟩

/-- Lexemes that are read back in front of others are read back with them. -/
theorem LegibleBefore.append (hls : LegibleBefore (sourceAll ms ++ b) ls)
    (hms : LegibleBefore b ms) : LegibleBefore b (ls ++ ms) := by
  rcases hls with ⟨h1, h2⟩
  rcases hms with ⟨h3, h4⟩
  rw [LegibleBefore, sourceAll_append, List.append_assoc]
  constructor
  · rw [h1, h3, List.append_assoc]
  · exact h2.append h4

/-- Texts in a row start with a break when each of them does. -/
theorem startsWithBreak_append {cs b : List Char} (hcs : Token.StartsWithBreak cs)
    (hb : Token.StartsWithBreak b) : Token.StartsWithBreak (cs ++ b) :=
  List.head?_append_all hcs hb

theorem Legible.nil : Legible [] :=
  fun b _ => .nil b

/-- Legible lexemes with a break between them are legible. -/
theorem Legible.append (hls : Legible ls) (hms : Legible ms)
    (hbreak : Token.StartsWithBreak (sourceAll ms)) : Legible (ls ++ ms) := by
  intro b hb
  apply LegibleBefore.append
  · exact hls _ (startsWithBreak_append hbreak hb)
  · exact hms b hb

/-- A blank text starts with a break. -/
theorem startsWithBreak_of_blank {cs : List Char} (h : ∀ c ∈ cs, Text.isBlank c = true) :
    Token.StartsWithBreak cs := by
  intro c hc
  exact isBreak_of_isBlank (h c (List.mem_of_mem_head? hc))

/-- The lexemes of the source of legible lexemes, which holds no comment, are these lexemes. -/
theorem Legible.ofText {blank : List Char} (h : Legible ls)
    (hblank : ∀ c ∈ blank, Text.isBlank c = true) :
    strip (sourceAll ls ++ blank) = sourceAll ls ++ blank ∧
      Lexeme.ofText (sourceAll ls ++ blank) = ls := by
  rcases h blank (startsWithBreak_of_blank hblank) with ⟨hstrip, hreads⟩
  have hnone : next? blank = none := next?_eq_none_iff.2 hblank
  have hkeep : strip blank = blank := by
    have := (scan_gap [] hblank).1
    rw [List.append_nil] at this
    rw [this]
    exact List.append_nil blank
  constructor
  · rw [hstrip, hkeep]
  · rw [hreads.ofText, ofText_eq_nil hnone, List.append_nil]

end Append

/-! ## One lexeme -/

/-- A lexeme is read back in front of a text in front of which its token is. -/
theorem legibleBefore_singleton {l : Lexeme} {c : Char} {cs b : List Char}
    (hgap : ∀ d ∈ l.gap, Text.isBlank d = true) (htext : l.token.text = c :: cs)
    (hc : Text.isBlank c = false) (hopen : c ≠ '-' ∧ c ≠ '/') (hterm : l.token.Terminated)
    (hread : Token.read c (cs ++ b) = (l.token, b)) : LegibleBefore b [l] := by
  have hsource : sourceAll [l] ++ b = l.gap ++ c :: (cs ++ b) := by
    simp [source, htext]
  have hcode : opensComment (c :: (cs ++ b)) = false := by
    apply opensComment_eq_false
    · intro ds h _
      exact hopen.1 h
    · intro ds h _
      exact hopen.2 h
  constructor
  · rw [hsource, (scan_gap _ hgap).1, (scan_read hterm hcode hread).1]
    simp [source]
  · apply Reads.next _ .done
    rw [hsource, next?_gap_append hgap hc, hread]

/-- Where no quote and no word character follows, a name stops. -/
def EndsName (b : List Char) : Prop :=
  ∀ c ∈ b.head?, Token.isWordChar c = false ∧ isQuote c = false

/-- A name ends where a break stands. -/
theorem endsName_of_startsWithBreak {b : List Char} (h : Token.StartsWithBreak b) :
    EndsName b := by
  intro c hc
  exact ⟨Token.isWordChar_of_isBreak (h c hc), Token.isQuote_of_isBreak (h c hc)⟩

/-- No character of a word is a blank. -/
theorem isBlank_of_isWordChar {c : Char} (h : Token.isWordChar c = true) :
    Text.isBlank c = false := by
  cases hc : Text.isBlank c with
  | false => rfl
  | true =>
    rw [Token.isWordChar_of_isBreak (isBreak_of_isBlank hc)] at h
    cases h

/-- A run of word characters that does not start with a digit is a legible word. -/
theorem legibleBefore_word {gap cs b : List Char} {c : Char}
    (hgap : ∀ d ∈ gap, Text.isBlank d = true) (hdigit : c.isDigit = false)
    (hword : ∀ d ∈ c :: cs, Token.isWordChar d = true) (hb : EndsName b) :
    LegibleBefore b [⟨gap, ⟨.word, c :: cs⟩⟩] := by
  have hc : Token.isWordChar c = true := hword c (by simp)
  have hplain := isPlain_of_isWordChar hc
  have hopen : c ≠ '-' ∧ c ≠ '/' := by
    constructor
    · rintro rfl
      exact absurd hplain (by decide)
    · rintro rfl
      exact absurd hplain (by decide)
  have hterm : (⟨.word, c :: cs⟩ : Token).Terminated := by
    intro quote ds hds hquote
    rw [← (List.cons.inj hds).1, Token.isQuote_of_isWordChar hc] at hquote
    cases hquote
  exact legibleBefore_singleton hgap rfl (isBlank_of_isWordChar hc) hopen hterm
    (Token.read_word hdigit hword fun d hd => (hb d hd).1)

/-- A text in quotes is a legible token. -/
theorem legibleBefore_inQuotes {gap b : List Char} {quote : Char} (inside : List Char)
    (hgap : ∀ d ∈ gap, Text.isBlank d = true) (hquote : isQuote quote = true) (hb : EndsName b) :
    LegibleBefore b
      [⟨gap, ⟨if quote = '\x27' then .string else .quotedName, Token.inQuotes quote inside⟩⟩] := by
  have hopen : quote ≠ '-' ∧ quote ≠ '/' := by
    constructor
    · rintro rfl
      cases hquote
    · rintro rfl
      cases hquote
  have hblank : Text.isBlank quote = false := by
    cases hq : Text.isBlank quote with
    | false => rfl
    | true =>
      rw [Token.isQuote_of_isBreak (isBreak_of_isBlank hq)] at hquote
      cases hquote
  have hhead : b.head? ≠ some quote := by
    intro h
    rw [(hb quote h).2] at hquote
    cases hquote
  have hread := Token.read_inQuotes inside hquote hhead
  apply legibleBefore_singleton hgap rfl hblank hopen
  · intro c cs hcs _
    rcases List.cons.inj hcs with ⟨rfl, -⟩
    exact ⟨inside, rfl⟩
  · rw [List.append_assoc, List.singleton_append]
    exact hread

/-- A punctuation character that always stands alone is a legible token. -/
theorem legibleBefore_mark {gap : List Char} {c : Char} {kind : TokenKind} (b : List Char)
    (hgap : ∀ d ∈ gap, Text.isBlank d = true) (hkind : Token.punctuation? c = some kind)
    (hmark : isQuote c = false ∧ c.isDigit = false ∧ Token.isWordChar c = false)
    (hblank : Text.isBlank c = false) : LegibleBefore b [⟨gap, ⟨kind, [c]⟩⟩] := by
  rcases hmark with ⟨hquote, hdigit, hword⟩
  have hopen : c ≠ '-' ∧ c ≠ '/' := by
    constructor
    · rintro rfl
      cases hkind
    · rintro rfl
      cases hkind
  apply legibleBefore_singleton hgap rfl hblank hopen
  · intro quote cs hcs hq
    rw [← (List.cons.inj hcs).1, hquote] at hq
    cases hq
  · simp [Token.read, Token.readPunctuation, hkind, hquote, hdigit, hword]

/-! ## Lexemes of a text -/

/-- A text that does not end in a blank is made of its lexemes. -/
theorem sourceAll_ofText {cs : List Char} (h : ∀ c ∈ cs.getLast?, Text.isBlank c = false) :
    sourceAll (ofText cs) = cs ∧ Reads cs (ofText cs) [] := by
  rcases Reads.of_ofText cs with ⟨blank, hblank, hreads⟩
  have hnil : blank = [] := by
    by_cases hne : blank = []
    · exact hne
    · have hlast := hblank _ (List.getLast_mem hne)
      have hcs : cs.getLast? = some (blank.getLast hne) := by
        rw [← hreads.source, List.getLast?_append, List.getLast?_eq_some_getLast hne]
        rfl
      rw [h _ hcs] at hlast
      cases hlast
  subst hnil
  have hsource := hreads.source
  rw [List.append_nil] at hsource
  exact ⟨hsource, hreads⟩

/-- The lexemes of a closed text without comments are legible. -/
theorem legible_ofText {cs : List Char} (hstrip : strip cs = cs) (hclosed : Closed cs)
    (hlast : ∀ c ∈ cs.getLast?, Text.isBlank c = false) : Legible (ofText cs) := by
  intro b hb
  rcases sourceAll_ofText hlast with ⟨hsource, hreads⟩
  rw [LegibleBefore, hsource]
  constructor
  · have hmark : ∀ c ∈ b.head?, c ≠ '-' ∧ c ≠ '*' := by
      intro c hc
      have hbreak := hb c hc
      constructor
      · rintro rfl
        exact absurd hbreak (by decide)
      · rintro rfl
        exact absurd hbreak (by decide)
    have := stripFrom_append hmark hclosed
    rw [strip, this, ← strip, hstrip]
    rfl
  · exact hreads.before_break hb (terminated_of_closed hstrip hclosed)

end Lexeme

end SelectAlgebra
