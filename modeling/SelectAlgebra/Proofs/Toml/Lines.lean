import Mathlib.Data.List.Forall2
import SelectAlgebra.Proofs.Toml.Reader
import SelectAlgebra.Toml.Document

/-!
# Texts that write lines

The grammar of TOML says which texts write the lines of a document.  Blanks may stand around keys
and values, a key may be quoted, the characters of a string may be escaped, and a comment may stand
at the end of any line.  Of the values, truth values and strings on one line are covered, which are
all that a configuration holds.  What is written is read.

Main results:

- Theorem `anyString_append`: a written string is read.
- Theorem `dottedKey_append`: a written path of keys is read.
- Theorem `line_append`: a written line is read.
- Theorem `parse?_of_isDocumentText`: the lines of a written document are read, and what they say
  decides what comes of it.
-/

namespace SelectAlgebra.Toml

open Reader

/-! ## Blanks and ends of lines -/

/-- Any number of blanks. -/
def IsBlankText (text : List Char) : Prop :=
  ∀ c ∈ text, c = ' ' ∨ c = '\t'

/-- A character that comments and strings may hold: no control character but the tab. -/
def IsPlainChar (c : Char) : Prop :=
  c = '\t' ∨ (0x20 ≤ c.toNat ∧ c.toNat ≠ 0x7F)

/-- What may stand behind a header or an entry: blanks, and possibly a comment. -/
inductive IsTail : List Char → Prop
  | blank {before : List Char} (hbefore : IsBlankText before) : IsTail before
  | comment {before text : List Char} (hbefore : IsBlankText before)
    (h : ∀ c ∈ text, IsPlainChar c) : IsTail (before ++ '#' :: text)

/-- The end of a line in front of the rest of a text. -/
inductive IsLineEnd : List Char → List Char → Prop
  | feed {rest : List Char} : IsLineEnd ['\n'] rest
  | returnFeed {rest : List Char} : IsLineEnd ['\r', '\n'] rest
  /-- The last line needs no end. -/
  | none : IsLineEnd [] []

/-- Space and tab are blank. -/
theorem isBlank_iff {c : Char} : isBlank c = true ↔ c = ' ' ∨ c = '\t' := by
  simp [isBlank]

/-- Blanks start with a space or a tab. -/
theorem IsBlankText.head? {b : List Char} (h : IsBlankText b) :
    ∀ c ∈ b.head?, c = ' ' ∨ c = '\t' :=
  fun c hc => h c (List.mem_of_mem_head? hc)

/-- There may be no blanks. -/
theorem isBlankText_nil : IsBlankText [] := by
  simp [IsBlankText]

/-- The characters of comments are the plain ones. -/
theorem isPlain_iff {c : Char} : isPlain c = true ↔ IsPlainChar c := by
  simp [isPlain, IsPlainChar]

/-- Blanks are passed over. -/
theorem blanks_append {b rest : List Char} (hb : IsBlankText b)
    (hrest : ∀ c ∈ rest.head?, isBlank c = false) : blanks (b ++ rest) = some ((), rest) := by
  rw [blanks, bind_of_some (run_append (fun c hc => isBlank_iff.2 (hb c hc)) hrest)]
  rfl

section LineEnd

variable {e rest : List Char}

/-- The end of a line is read. -/
theorem lineEnd_append (h : IsLineEnd e rest) : lineEnd (e ++ rest) = some ((), rest) := by
  cases h <;> rfl

/-- A line ends with a line feed or with a carriage return in front of one, or with the text. -/
theorem IsLineEnd.head? (h : IsLineEnd e rest) :
    ∀ c ∈ (e ++ rest).head?, c = '\n' ∨ c = '\r' := by
  cases h <;> simp

/-- A comment is read up to the end of its line. -/
theorem comment_append {text : List Char} (h : ∀ c ∈ text, IsPlainChar c)
    (he : IsLineEnd e rest) : comment ('#' :: (text ++ (e ++ rest))) = some ((), e ++ rest) := by
  have hstop : ∀ c ∈ (e ++ rest).head?, isPlain c = false := by
    intro c hc
    rcases he.head? c hc with rfl | rfl <;> rfl
  rw [comment, bind_of_some (char_cons _ _),
    bind_of_some (run_append (fun c hc => isPlain_iff.2 (h c hc)) hstop)]
  rfl

/-- What stands behind a header or an entry is read. -/
theorem restOfLine_append {tail : List Char} (h : IsTail tail) (he : IsLineEnd e rest) :
    restOfLine (tail ++ (e ++ rest)) = some ((), rest) := by
  cases h with
  | blank hbefore =>
    have hstop : ∀ c ∈ (e ++ rest).head?, isBlank c = false := by
      intro c hc
      rcases he.head? c hc with rfl | rfl <;> rfl
    have hcomment : comment (e ++ rest) = none := by
      refine bind_of_none (char_of_head? fun c hc => ?_) _
      rcases he.head? c hc with rfl | rfl <;> decide
    rw [restOfLine, bind_of_some (blanks_append hbefore hstop),
      bind_of_some (skip_of_none hcomment), lineEnd_append he]
  | @comment before text hbefore hplain =>
    have hstop : ∀ c ∈ ('#' :: (text ++ (e ++ rest))).head?, isBlank c = false := by
      simp [isBlank]
    rw [List.append_assoc, List.cons_append, restOfLine,
      bind_of_some (blanks_append hbefore hstop),
      bind_of_some (skip_of_some (comment_append hplain he)), lineEnd_append he]

end LineEnd

/-! ## Strings -/

/-- The characters that have a short escape, by the letters of these escapes. -/
def shortEscapes : List (Char × Char) :=
  [('\x22', '\x22'), ('\\', '\\'), ('b', '\x08'), ('f', '\x0C'), ('n', '\n'), ('r', '\r'),
    ('t', '\t')]

/-- A text that stands for a character between quotation marks. -/
inductive IsCharText : Char → List Char → Prop
  /-- A plain character but the quotation mark and the backslash stands for itself. -/
  | plain {c : Char} (h : IsPlainChar c) (hquote : c ≠ '\x22') (hbackslash : c ≠ '\\') :
    IsCharText c [c]
  | short {letter c : Char} (h : (letter, c) ∈ shortEscapes) : IsCharText c ['\\', letter]
  /-- A character is given by its code point in four digits. -/
  | code {c : Char} {digits : List Char} (hlength : digits.length = 4)
    (hdigits : ∀ d ∈ digits, isHexDigit d = true) (hnumber : numeral 16 digits = c.toNat) :
    IsCharText c ('\\' :: 'u' :: digits)
  /-- A character is given by its code point in eight digits. -/
  | longCode {c : Char} {digits : List Char} (hlength : digits.length = 8)
    (hdigits : ∀ d ∈ digits, isHexDigit d = true) (hnumber : numeral 16 digits = c.toNat) :
    IsCharText c ('\\' :: 'U' :: digits)

/-- A text that writes a string on one line. -/
inductive IsStringText : String → List Char → Prop
  | basic {s : String} {pieces : List (List Char)} (h : List.Forall₂ IsCharText s.toList pieces) :
    IsStringText s ('\x22' :: (pieces.flatten ++ ['\x22']))
  /-- Between apostrophes every character stands for itself. -/
  | literal {s : String} (h : ∀ c ∈ s.toList, IsPlainChar c ∧ c ≠ '\x27') :
    IsStringText s ('\x27' :: (s.toList ++ ['\x27']))

/-- The texts of characters do not start with a quotation mark. -/
theorem head?_flatten_ne {cs : List Char} {texts : List (List Char)}
    (h : List.Forall₂ IsCharText cs texts) : ∀ d ∈ texts.flatten.head?, d ≠ '\x22' := by
  cases h with
  | nil => simp
  | cons hc _ =>
    cases hc with
    | plain _ hquote _ => simpa using hquote
    | short | code | longCode => simp

/-- A code point is read from its digits. -/
theorem codePoint_append {c : Char} {digits : List Char}
    (hdigits : ∀ d ∈ digits, isHexDigit d = true) (hnumber : numeral 16 digits = c.toNat)
    (rest : List Char) : codePoint digits.length (digits ++ rest) = some (c, rest) := by
  have hvalid : decide (numeral 16 digits).isValidChar = true := by
    rw [hnumber]
    exact decide_eq_true c.valid
  rw [codePoint, bind_of_some (exactly_append hdigits rest)]
  rw [bind_of_some (require_of_true hvalid), hnumber, Char.ofNat_toNat]
  rfl

/-- A piece of a string between quotation marks: plain characters, or what is escaped. -/
def basicPiece : Reader (List Char) :=
  run1 isBasicChar <|> (do return [← escape])

/-- The characters that stand for themselves between quotation marks are plain. -/
theorem isBasicChar_iff {c : Char} :
    isBasicChar c = true ↔ IsPlainChar c ∧ c ≠ '\x22' ∧ c ≠ '\\' := by
  simp [isBasicChar, isPlain_iff, and_assoc]

/-- What is escaped is read. -/
theorem escape_append {c : Char} {text : List Char} (h : IsCharText c text)
    (hc : text.head? = some '\\') (rest : List Char) : escape (text ++ rest) = some (c, rest) := by
  cases h with
  | plain _ _ hbackslash => exact absurd (Option.some.inj hc) hbackslash
  | short h =>
    simp only [shortEscapes, List.mem_cons, List.not_mem_nil, or_false, Prod.mk.injEq] at h
    rcases h with ⟨rfl, rfl⟩ | ⟨rfl, rfl⟩ | ⟨rfl, rfl⟩ | ⟨rfl, rfl⟩ | ⟨rfl, rfl⟩ | ⟨rfl, rfl⟩ |
      ⟨rfl, rfl⟩ <;> rfl
  | code hlength hdigits hnumber =>
    have hcode := codePoint_append hdigits hnumber rest
    rw [hlength] at hcode
    rw [escape, List.cons_append, bind_of_some (char_cons _ _), List.cons_append,
      bind_of_some (one_cons rfl)]
    exact hcode
  | longCode hlength hdigits hnumber =>
    have hcode := codePoint_append hdigits hnumber rest
    rw [hlength] at hcode
    rw [escape, List.cons_append, bind_of_some (char_cons _ _), List.cons_append,
      bind_of_some (one_cons rfl)]
    exact hcode

section Pieces

variable {rest cs : List Char} {pieces : List (List Char)}

/-- A plain character is read together with those behind it. -/
theorem gives_cons_plain {c : Char} (hc : isBasicChar c = true)
    (h : Gives basicPiece rest pieces cs) :
    ∃ pieces', Gives basicPiece rest pieces' (c :: cs) ∧ pieces'.flatten = c :: pieces.flatten := by
  obtain ⟨hcs, hw, hstop⟩ :=
    List.takeWhile_dropWhile_iff.1 ⟨Eq.refl (cs.takeWhile isBasicChar), rfl⟩
  generalize cs.takeWhile isBasicChar = w at hcs hw
  generalize cs.dropWhile isBasicChar = cs' at hcs hstop
  subst hcs
  have hfirst : basicPiece (c :: w ++ cs') = some (c :: w, cs') :=
    orElse_of_some (run1_append (by simp) (by simpa [hc] using hw) hstop)
  have hshorter : cs'.length < (c :: w ++ cs').length := by
    rw [List.length_append, List.length_cons]
    omega
  rcases eq_or_ne w [] with rfl | hne
  · exact ⟨[c] :: pieces, .cons hfirst hshorter h, rfl⟩
  · -- the run behind the character is the first piece without it
    have hrun : basicPiece (w ++ cs') = some (w, cs') := orElse_of_some (run1_append hne hw hstop)
    cases h with
    | none hnone => exact absurd (hnone.symm.trans hrun) (by simp)
    | cons hread hlength has =>
      rw [hrun, Option.some.injEq, Prod.mk.injEq] at hread
      obtain ⟨rfl, rfl⟩ := hread
      exact ⟨_, .cons hfirst hshorter has, by simp⟩

/-- The characters of a string are read piece by piece, up to its closing quotation mark. -/
theorem exists_gives_pieces {s : List Char} {texts : List (List Char)}
    (h : List.Forall₂ IsCharText s texts) (rest : List Char) :
    ∃ pieces, Gives basicPiece ('\x22' :: rest) pieces (texts.flatten ++ '\x22' :: rest) ∧
      pieces.flatten = s := by
  induction h with
  | nil =>
    have hrun : run1 isBasicChar ('\x22' :: rest) = none :=
      run1_of_head? (by simp [isBasicChar])
    have hescape : escape ('\x22' :: rest) = none :=
      bind_of_none (char_of_head? (by simp)) _
    refine ⟨[], .none ?_, rfl⟩
    rw [basicPiece, orElse_of_none hrun, bind_of_none hescape]
  | @cons c text s texts hc hs ih =>
    obtain ⟨pieces, hpieces, rfl⟩ := ih
    rw [List.flatten_cons, List.append_assoc]
    by_cases hescaped : text.head? = some '\\'
    · have hplain : run1 isBasicChar (text ++ (texts.flatten ++ '\x22' :: rest)) = none := by
        apply run1_of_head?
        simp [List.head?_append, hescaped, isBasicChar]
      have hfirst : basicPiece (text ++ (texts.flatten ++ '\x22' :: rest)) =
          some ([c], texts.flatten ++ '\x22' :: rest) := by
        rw [basicPiece, orElse_of_none hplain, bind_of_some (escape_append hc hescaped _)]
        rfl
      have hfilled : 0 < text.length := List.length_pos_of_ne_nil (by rintro rfl; simp at hescaped)
      exact ⟨[c] :: pieces, .cons hfirst (by simp only [List.length_append]; omega) hpieces, rfl⟩
    · cases hc with
      | plain h hquote hbackslash =>
        exact gives_cons_plain (isBasicChar_iff.2 ⟨h, hquote, hbackslash⟩) hpieces
      | short | code | longCode => exact absurd rfl hescaped

end Pieces

/-- A string in quotation marks is read. -/
theorem basicString_append {s : String} {texts : List (List Char)}
    (h : List.Forall₂ IsCharText s.toList texts) (rest : List Char) :
    basicString ('\x22' :: (texts.flatten ++ '\x22' :: rest)) = some (s, rest) := by
  obtain ⟨pieces, hpieces, hflatten⟩ := exists_gives_pieces h rest
  have hmany := many_of_gives hpieces
  rw [basicPiece] at hmany
  rw [basicString, bind_of_some (char_cons _ _), bind_of_some hmany, bind_of_some (char_cons _ _),
    hflatten, String.ofList_toList]
  rfl

/-- A string in apostrophes is read. -/
theorem literalString_append {s : String} (h : ∀ c ∈ s.toList, IsPlainChar c ∧ c ≠ '\x27')
    (rest : List Char) :
    literalString ('\x27' :: (s.toList ++ '\x27' :: rest)) = some (s, rest) := by
  have hplain : ∀ c ∈ s.toList, isLiteralChar c = true := by
    simpa [isLiteralChar, isPlain_iff] using h
  have hrun : run isLiteralChar (s.toList ++ '\x27' :: rest) = some (s.toList, '\x27' :: rest) :=
    run_append hplain (by simp [isLiteralChar])
  rw [literalString, bind_of_some (char_cons _ _), bind_of_some hrun, bind_of_some (char_cons _ _),
    String.ofList_toList]
  rfl

/-- What does not start with the quote opens no string over several lines. -/
theorem multiline_of_head? {quote : Char} {piece : Reader (List Char)} {cs : List Char}
    (h : ∀ c ∈ cs.head?, c ≠ quote) : multiline quote piece cs = none :=
  bind_of_none (exactly_of_few (w := []) (by simp) (by simp) (by simpa using h)) _

/-- Quotes that are written once open no string over several lines, and neither do those of an
empty string. -/
theorem multiline_of_one {quote : Char} {piece : Reader (List Char)} {body rest : List Char}
    (hbody : ∀ c ∈ body.head?, c ≠ quote) (hrest : ∀ c ∈ rest.head?, c ≠ quote) :
    multiline quote piece (quote :: (body ++ quote :: rest)) = none := by
  apply bind_of_none
  cases body with
  | nil => exact exactly_of_few (w := [quote, quote]) (by simp) (by simp) (by simpa using hrest)
  | cons c body =>
    exact exactly_of_few (w := [quote]) (by simp) (by simp) (by simpa using hbody)

/-- A string on one line is read, unless a quote stands right behind it. -/
theorem anyString_append {s : String} {text rest : List Char} (h : IsStringText s text)
    (hrest : ∀ c ∈ rest.head?, c ≠ '\x22' ∧ c ≠ '\x27') :
    anyString (text ++ rest) = some (s, rest) := by
  cases h with
  | @basic texts h =>
    have hmultiline : multilineBasicString ('\x22' :: (texts.flatten ++ '\x22' :: rest)) = none :=
      multiline_of_one (head?_flatten_ne h) fun c hc => (hrest c hc).1
    simp only [List.cons_append, List.append_assoc, List.nil_append]
    rw [anyString, orElse_of_none hmultiline]
    exact orElse_of_some (basicString_append h rest)
  | literal h =>
    have hbody : ∀ c ∈ s.toList.head?, c ≠ '\x27' :=
      fun c hc => (h c (List.mem_of_mem_head? hc)).2
    have hbasic : multilineBasicString ('\x27' :: (s.toList ++ '\x27' :: rest)) = none :=
      multiline_of_head? (by simp)
    have hquoted : basicString ('\x27' :: (s.toList ++ '\x27' :: rest)) = none :=
      bind_of_none (char_of_head? (by simp)) _
    have hmultiline : multilineLiteralString ('\x27' :: (s.toList ++ '\x27' :: rest)) = none :=
      multiline_of_one hbody fun c hc => (hrest c hc).2
    simp only [List.cons_append, List.append_assoc, List.nil_append]
    rw [anyString, orElse_of_none hbasic, orElse_of_none hquoted, orElse_of_none hmultiline]
    exact literalString_append h rest

/-! ## Values -/

/-- A text that writes a truth value or a string on one line. -/
inductive IsValueText : Value → List Char → Prop
  | ofTrue : IsValueText (.boolean true) "true".toList
  | ofFalse : IsValueText (.boolean false) "false".toList
  | string {s : String} {text : List Char} (h : IsStringText s text) : IsValueText (.string s) text

/-- A value that holds no other values is read. -/
theorem scalar_append {v : Value} {text rest : List Char} (h : IsValueText v text)
    (hrest : ∀ c ∈ rest.head?, c ≠ '\x22' ∧ c ≠ '\x27') :
    scalar (text ++ rest) = some (v, rest) := by
  cases h with
  | ofTrue => rfl
  | ofFalse => rfl
  | string h =>
    apply orElse_of_some
    rw [bind_of_some (anyString_append h hrest)]
    rfl

/-- A value is read at any depth. -/
theorem value_append {v : Value} {text rest : List Char} (h : IsValueText v text)
    (hrest : ∀ c ∈ rest.head?, c ≠ '\x22' ∧ c ≠ '\x27') (depth : Nat) :
    value depth (text ++ rest) = some (v, rest) := by
  cases depth with
  | zero => exact scalar_append h hrest
  | succ depth => exact orElse_of_some (scalar_append h hrest)

/-! ## Keys -/

/-- A character of a key without quotes. -/
def IsBareChar (c : Char) : Prop :=
  c.isAlphanum ∨ c = '_' ∨ c = '-'

/-- A text that writes a key. -/
inductive IsKeyText : String → List Char → Prop
  | bare {k : String} (hne : k ≠ "") (h : ∀ c ∈ k.toList, IsBareChar c) : IsKeyText k k.toList
  | quoted {k : String} {text : List Char} (h : IsStringText k text) : IsKeyText k text

/-- A text that writes keys with dots between them, up to the blanks behind the last one. -/
inductive IsPathText : List String → List Char → Prop
  | one {k : String} {text after : List Char} (h : IsKeyText k text) (hafter : IsBlankText after) :
    IsPathText [k] (text ++ after)
  | more {k : String} {ks : List String} {text after before rest : List Char}
    (h : IsKeyText k text) (hafter : IsBlankText after) (hbefore : IsBlankText before)
    (hrest : IsPathText ks rest) : IsPathText (k :: ks) (text ++ (after ++ '.' :: (before ++ rest)))

/-- The characters of keys without quotes are the bare ones. -/
theorem isBareKeyChar_iff {c : Char} : isBareKeyChar c = true ↔ IsBareChar c := by
  simp [isBareKeyChar, IsBareChar, or_assoc]

/-- A key starts with one of its characters or with a quote. -/
theorem IsKeyText.exists_cons {k : String} {text : List Char} (h : IsKeyText k text) :
    ∃ c cs, text = c :: cs ∧ (isBareKeyChar c = true ∨ c = '\x22' ∨ c = '\x27') := by
  cases h with
  | bare hne h =>
    obtain ⟨c, cs, hcs⟩ :=
      List.exists_cons_of_ne_nil fun hnil => hne (String.toList_eq_nil_iff.1 hnil)
    exact ⟨c, cs, hcs, Or.inl (isBareKeyChar_iff.2 (h c (by simp [hcs])))⟩
  | quoted h =>
    cases h with
    | basic => exact ⟨_, _, rfl, Or.inr (Or.inl rfl)⟩
    | literal => exact ⟨_, _, rfl, Or.inr (Or.inr rfl)⟩

/-- What starts a key is none of the characters that no key starts with. -/
theorem IsKeyText.head?_ne {k : String} {text : List Char} (h : IsKeyText k text) {d : Char}
    (hbare : isBareKeyChar d = false) (hbasic : d ≠ '\x22') (hliteral : d ≠ '\x27')
    (rest : List Char) : ∀ c ∈ (text ++ rest).head?, c ≠ d := by
  obtain ⟨c, cs, rfl, hc⟩ := h.exists_cons
  rintro _ ⟨⟩ rfl
  rcases hc with hc | rfl | rfl
  · exact Bool.false_ne_true (hbare.symm.trans hc)
  · exact hbasic rfl
  · exact hliteral rfl

/-- A path starts with its first key. -/
theorem IsPathText.exists_key {keys : List String} {text : List Char} (h : IsPathText keys text) :
    ∃ k first behind, IsKeyText k first ∧ text = first ++ behind := by
  cases h with
  | one h => exact ⟨_, _, _, h, rfl⟩
  | more h => exact ⟨_, _, _, h, rfl⟩

/-- A key starts with no blank. -/
theorem IsKeyText.head?_not_blank {k : String} {text : List Char} (h : IsKeyText k text)
    (rest : List Char) : ∀ c ∈ (text ++ rest).head?, isBlank c = false := by
  intro c hc
  rw [Bool.eq_false_iff, Ne, isBlank_iff]
  rintro (rfl | rfl)
  · exact h.head?_ne (by decide) (by decide) (by decide) rest _ hc rfl
  · exact h.head?_ne (by decide) (by decide) (by decide) rest _ hc rfl

/-- A key is read, unless a further character of keys stands right behind it. -/
theorem simpleKey_append {k : String} {text rest : List Char} (h : IsKeyText k text)
    (hrest : ∀ c ∈ rest.head?, isBareKeyChar c = false) :
    simpleKey (text ++ rest) = some (k, rest) := by
  cases h with
  | bare hne h =>
    have hrun := run1_append (fun hnil => hne (String.toList_eq_nil_iff.1 hnil))
      (fun c hc => isBareKeyChar_iff.2 (h c hc)) hrest
    apply orElse_of_some
    rw [bind_of_some hrun, String.ofList_toList]
    rfl
  | quoted h =>
    have hbare (quote : Char) (hquote : isBareKeyChar quote = false) (cs : List Char) :
        (do return String.ofList (← run1 isBareKeyChar)) (quote :: cs) = none :=
      bind_of_none (run1_of_head? (by simpa using hquote)) _
    cases h with
    | basic h =>
      simp only [List.cons_append, List.append_assoc, List.nil_append]
      rw [simpleKey, orElse_of_none (hbare _ rfl _)]
      exact orElse_of_some (basicString_append h rest)
    | literal h =>
      have hbasic : basicString ('\x27' :: (k.toList ++ '\x27' :: rest)) = none :=
        bind_of_none (char_of_head? (by simp)) _
      simp only [List.cons_append, List.append_assoc, List.nil_append]
      rw [simpleKey, orElse_of_none (hbare _ rfl _), orElse_of_none hbasic]
      exact literalString_append h rest

/-- A part of a path: a key with the blanks around it. -/
def keyPart : Reader String := do
  blanks
  let k ← simpleKey
  blanks
  return k

/-- A key is read with the blanks around it. -/
theorem keyPart_append {k : String} {before text after rest : List Char}
    (hbefore : IsBlankText before) (h : IsKeyText k text) (hafter : IsBlankText after)
    (hrest : ∀ c ∈ rest.head?, c = '.' ∨ c = '=' ∨ c = ']') :
    keyPart (before ++ (text ++ (after ++ rest))) = some (k, rest) := by
  have hstop : ∀ c ∈ rest.head?, isBlank c = false := by
    intro c hc
    rcases hrest c hc with rfl | rfl | rfl <;> rfl
  have hbare : ∀ c ∈ (after ++ rest).head?, isBareKeyChar c = false := by
    apply List.head?_append_all
    · intro c hc
      rcases hafter.head? c hc with rfl | rfl <;> rfl
    · intro c hc
      rcases hrest c hc with rfl | rfl | rfl <;> rfl
  rw [keyPart, bind_of_some (blanks_append hbefore (h.head?_not_blank _)),
    bind_of_some (simpleKey_append h hbare), bind_of_some (blanks_append hafter hstop)]
  rfl

/-- The keys of a path are read one after the other. -/
theorem IsPathText.gives {keys : List String} {text : List Char} (h : IsPathText keys text)
    {rest : List Char} (hrest : ∀ c ∈ rest.head?, c = '=' ∨ c = ']') :
    ∃ k ks cs, keys = k :: ks ∧ cs.length ≤ (text ++ rest).length ∧
      (∀ before, IsBlankText before → keyPart (before ++ (text ++ rest)) = some (k, cs)) ∧
      Gives (do char '.'; keyPart) rest ks cs := by
  induction h with
  | @one k text after h hafter =>
    have hend : Gives (do char '.'; keyPart) rest [] rest := by
      refine .none (bind_of_none (char_of_head? fun c hc => ?_) _)
      rcases hrest c hc with rfl | rfl <;> decide
    refine ⟨k, [], rest, rfl, List.length_append ▸ Nat.le_add_left _ _, fun before hbefore => ?_,
      hend⟩
    rw [List.append_assoc]
    exact keyPart_append hbefore h hafter fun c hc => Or.inr (hrest c hc)
  | @more k keys text after before' text' h hafter hbefore' hpath ih =>
    obtain ⟨k', ks', cs, rfl, hlength, hkey, hgives⟩ := ih
    have hnext : (do char '.'; keyPart) ('.' :: (before' ++ (text' ++ rest))) = some (k', cs) := by
      rw [bind_of_some (char_cons _ _), hkey before' hbefore']
    have hshorter : cs.length < ('.' :: (before' ++ (text' ++ rest))).length := by
      simp only [List.length_cons, List.length_append] at hlength ⊢
      omega
    refine ⟨k, k' :: ks', _, rfl, ?_, fun before hbefore => ?_, .cons hnext hshorter hgives⟩
    · simp only [List.length_append, List.length_cons]
      omega
    · simp only [List.append_assoc, List.cons_append]
      exact keyPart_append hbefore h hafter (by simp)

/-- A path of keys is read, the last key apart from those in front of it. -/
theorem dottedKey_append {path : List String} {key : String} {before text rest : List Char}
    (hbefore : IsBlankText before) (h : IsPathText (path ++ [key]) text)
    (hlength : path.length + 1 < depthLimit) (hrest : ∀ c ∈ rest.head?, c = '=' ∨ c = ']') :
    dottedKey (before ++ (text ++ rest)) = some ((path, key), rest) := by
  obtain ⟨k, ks, cs, hkeys, -, hkey, hgives⟩ := h.gives hrest
  have hseparated : separated keyPart (char '.') (before ++ (text ++ rest)) =
      some (path ++ [key], rest) := by
    rw [hkeys]
    exact separated_of_gives (hkey before hbefore) hgives
  have hfew : decide ((path ++ [key]).length < depthLimit) = true := by simpa using hlength
  rw [keyPart] at hseparated
  rw [dottedKey, bind_of_some hseparated, bind_of_some (require_of_true hfew), List.getLast?_concat,
    List.dropLast_concat]
  rfl

/-! ## Lines -/

/-- A text that writes a line that says something, or a comment on a line of its own.  Blanks in
front of the line and its end are left out. -/
inductive IsLineText : Line → List Char → Prop
  | comment {text : List Char} (h : ∀ c ∈ text, IsPlainChar c) : IsLineText .nothing ('#' :: text)
  | table {path : List String} {key : String} {before text tail : List Char}
    (hbefore : IsBlankText before) (h : IsPathText (path ++ [key]) text)
    (hlength : path.length + 1 < depthLimit) (htail : IsTail tail) :
    IsLineText (.table (path ++ [key])) ('[' :: (before ++ (text ++ ']' :: tail)))
  | element {path : List String} {key : String} {before text tail : List Char}
    (hbefore : IsBlankText before) (h : IsPathText (path ++ [key]) text)
    (hlength : path.length + 1 < depthLimit) (htail : IsTail tail) :
    IsLineText (.element (path ++ [key])) ('[' :: '[' :: (before ++ (text ++ ']' :: ']' :: tail)))
  | entry {path : List String} {key : String} {v : Value} {text before valueText tail : List Char}
    (h : IsPathText (path ++ [key]) text) (hlength : path.length + 1 < depthLimit)
    (hbefore : IsBlankText before) (hv : IsValueText v valueText) (htail : IsTail tail) :
    IsLineText (.entry path key v) (text ++ '=' :: (before ++ (valueText ++ tail)))

/-- A text that writes lines. -/
inductive AreLinesText : List Line → List Char → Prop
  /-- Behind the end of the last line there may be blanks. -/
  | last {before : List Char} (hbefore : IsBlankText before) : AreLinesText [] before
  | blank {ls : List Line} {before e rest : List Char} (hbefore : IsBlankText before)
    (hne : e ≠ []) (he : IsLineEnd e rest) (hrest : AreLinesText ls rest) :
    AreLinesText (.nothing :: ls) (before ++ (e ++ rest))
  | line {l : Line} {ls : List Line} {before text e rest : List Char}
    (hbefore : IsBlankText before) (h : IsLineText l text) (he : IsLineEnd e rest)
    (hrest : AreLinesText ls rest) : AreLinesText (l :: ls) (before ++ (text ++ (e ++ rest)))

/-- A text that writes the lines of a document.  A byte order mark may stand in front of them. -/
inductive IsDocumentText : List Line → List Char → Prop
  | plain {ls : List Line} {text : List Char} (h : AreLinesText ls text) : IsDocumentText ls text
  | marked {ls : List Line} {text : List Char} (h : AreLinesText ls text) :
    IsDocumentText ls ('\uFEFF' :: text)

/-- A value starts with none of the characters that no value starts with. -/
theorem IsValueText.head?_not_blank {v : Value} {text : List Char} (h : IsValueText v text)
    (rest : List Char) : ∀ c ∈ (text ++ rest).head?, isBlank c = false := by
  cases h with
  | ofTrue | ofFalse => rintro c ⟨⟩; rfl
  | string h => cases h <;> (rintro c ⟨⟩; rfl)

/-- What follows a value is no quote. -/
theorem IsTail.head?_ne {tail e rest : List Char} (h : IsTail tail) (he : IsLineEnd e rest) :
    ∀ c ∈ (tail ++ (e ++ rest)).head?, c ≠ '\x22' ∧ c ≠ '\x27' := by
  have hblank {before : List Char} (hbefore : IsBlankText before) :
      ∀ c ∈ before.head?, c ≠ '\x22' ∧ c ≠ '\x27' := by
    intro c hc
    rcases hbefore.head? c hc with rfl | rfl <;> decide
  cases h with
  | blank hbefore =>
    refine List.head?_append_all (hblank hbefore) fun c hc => ?_
    rcases he.head? c hc with rfl | rfl <;> decide
  | comment hbefore =>
    rw [List.append_assoc]
    exact List.head?_append_all (hblank hbefore) (by simp)

/-- The path of a header is read with its brackets. -/
theorem header_append {path : List String} {key : String} {before text tail e rest : List Char}
    {opening closing : String} (hbefore : IsBlankText before) (h : IsPathText (path ++ [key]) text)
    (hlength : path.length + 1 < depthLimit) (hclosing : closing.toList.head? = some ']')
    (htail : IsTail tail) (he : IsLineEnd e rest) :
    header opening closing (opening.toList ++ (before ++ (text ++ (closing.toList ++
      (tail ++ (e ++ rest)))))) = some (path ++ [key], rest) := by
  have hstop : ∀ c ∈ (closing.toList ++ (tail ++ (e ++ rest))).head?, c = '=' ∨ c = ']' := by
    simp [List.head?_append, hclosing]
  rw [header, bind_of_some (word_append _ _),
    bind_of_some (dottedKey_append hbefore h hlength hstop)]
  dsimp only
  rw [bind_of_some (word_append _ _), bind_of_some (restOfLine_append htail he)]
  rfl

/-- A header with one bracket is not read as one with two. -/
theorem header_of_one {keys : List String} {before text : List Char}
    (hbefore : IsBlankText before) (h : IsPathText keys text) (rest : List Char) :
    header "[[" "]]" ('[' :: (before ++ (text ++ rest))) = none := by
  have hhead : ∀ c ∈ (before ++ (text ++ rest)).head?, c ≠ '[' := by
    refine List.head?_append_all (fun c hc => ?_) ?_
    · rcases hbefore.head? c hc with rfl | rfl <;> decide
    · obtain ⟨k, first, behind, hfirst, rfl⟩ := h.exists_key
      rw [List.append_assoc]
      exact hfirst.head?_ne (by decide) (by decide) (by decide) _
  refine bind_of_none (word_of_not_isPrefix ?_) _
  rintro ⟨cs, hcs⟩
  have hsecond : (before ++ (text ++ rest)).head? = some '[' := by
    rw [← (List.cons.inj hcs).2]
    rfl
  exact hhead '[' hsecond rfl

/-- An entry is read. -/
theorem entry_append {path : List String} {key : String} {v : Value}
    {text before valueText rest : List Char} (h : IsPathText (path ++ [key]) text)
    (hlength : path.length + 1 < depthLimit) (hbefore : IsBlankText before)
    (hv : IsValueText v valueText) (hrest : ∀ c ∈ rest.head?, c ≠ '\x22' ∧ c ≠ '\x27')
    (depth : Nat) : entry (value depth) (text ++ '=' :: (before ++ (valueText ++ rest))) =
      some ((path, key, v), rest) := by
  have hkey : dottedKey (text ++ '=' :: (before ++ (valueText ++ rest))) =
      some ((path, key), '=' :: (before ++ (valueText ++ rest))) :=
    @dottedKey_append path key [] text _ isBlankText_nil h hlength (by simp)
  rw [entry, bind_of_some hkey]
  dsimp only
  rw [bind_of_some (char_cons _ _), bind_of_some (blanks_append hbefore (hv.head?_not_blank _)),
    bind_of_some (value_append hv hrest depth)]
  rfl

/-- What starts with a key is read as an entry. -/
theorem line_of_key {k : String} {text : List Char} (h : IsKeyText k text) (rest : List Char) :
    line (text ++ rest) =
      (do
        let (path, key, v) ← entry (value (depthLimit - 1))
        restOfLine
        return .entry path key v : Reader Line) (text ++ rest) := by
  have hne {d : Char} (hbare : isBareKeyChar d = false) (hbasic : d ≠ '\x22')
      (hliteral : d ≠ '\x27') : (text ++ rest).head? ≠ some d :=
    fun hd => h.head?_ne hbare hbasic hliteral rest d hd rfl
  have hcomment := @hne '#' rfl (by decide) (by decide)
  have hheader := @hne '[' rfl (by decide) (by decide)
  have hfeed := @hne '\n' rfl (by decide) (by decide)
  have hreturn := @hne '\r' rfl (by decide) (by decide)
  obtain ⟨c, cs, rfl, -⟩ := h.exists_cons
  have hpeek : peek (c :: cs ++ rest) = some (some c, c :: cs ++ rest) := rfl
  rw [line, bind_of_some hpeek]
  refine congrFun ?_ _
  split <;> simp_all

/-- A line is read with its end. -/
theorem line_append {l : Line} {text e rest : List Char} (h : IsLineText l text)
    (he : IsLineEnd e rest) : line (text ++ (e ++ rest)) = some (l, rest) := by
  cases h with
  | @comment text h =>
    change (do comment; lineEnd; return .nothing : Reader Line) ('#' :: (text ++ (e ++ rest))) = _
    rw [bind_of_some (comment_append h he), bind_of_some (lineEnd_append he)]
    rfl
  | @table path key before text tail hbefore h hlength htail =>
    simp only [List.cons_append, List.append_assoc]
    change ((do return .element (← header "[[" "]]")) <|> (do return .table (← header "[" "]")) :
      Reader Line) ('[' :: (before ++ (text ++ ']' :: (tail ++ (e ++ rest))))) = _
    rw [orElse_of_none (bind_of_none (header_of_one hbefore h _) _)]
    exact bind_of_some (header_append hbefore h hlength rfl htail he) _
  | @element path key before text tail hbefore h hlength htail =>
    simp only [List.cons_append, List.append_assoc]
    change ((do return .element (← header "[[" "]]")) <|> (do return .table (← header "[" "]")) :
      Reader Line) ('[' :: '[' :: (before ++ (text ++ ']' :: ']' :: (tail ++ (e ++ rest))))) = _
    apply orElse_of_some
    exact bind_of_some (header_append hbefore h hlength rfl htail he) _
  | @entry path key v text before valueText tail h hlength hbefore hv htail =>
    have hentry := entry_append h hlength hbefore hv (htail.head?_ne he) (depthLimit - 1)
    obtain ⟨k, first, behind, hfirst, rfl⟩ := h.exists_key
    simp only [List.cons_append, List.append_assoc] at hentry ⊢
    rw [line_of_key hfirst, bind_of_some hentry]
    dsimp only
    rw [bind_of_some (restOfLine_append htail he)]
    rfl

/-! ## Documents -/

/-- A line starts with no blank and with no byte order mark. -/
theorem IsLineText.exists_cons {l : Line} {text : List Char} (h : IsLineText l text) :
    ∃ c cs, text = c :: cs ∧ isBlank c = false ∧ c ≠ '\uFEFF' := by
  cases h with
  | comment => exact ⟨_, _, rfl, rfl, by decide⟩
  | table => exact ⟨_, _, rfl, rfl, by decide⟩
  | element => exact ⟨_, _, rfl, rfl, by decide⟩
  | entry h =>
    obtain ⟨k, first, behind, hfirst, rfl⟩ := h.exists_key
    have hblank := hfirst.head?_not_blank []
    have hmark := hfirst.head?_ne (d := '\uFEFF') (by decide) (by decide) (by decide) []
    obtain ⟨c, cs, rfl, -⟩ := hfirst.exists_cons
    exact ⟨c, _, rfl, hblank c rfl, hmark c rfl⟩

/-- A line with its end and the blanks in front of the next one. -/
def lineAndBlanks : Reader Line := do
  let l ← line
  blanks
  return l

/-- Lines are read one after the other from a text.  The blanks in front of the first are passed
over. -/
def StartsLines (ls : List Line) (text : List Char) : Prop :=
  ∃ before body, text = before ++ body ∧ IsBlankText before ∧
    (∀ c ∈ body.head?, isBlank c = false ∧ c ≠ '\uFEFF') ∧ Gives lineAndBlanks [] ls body

/-- A line that is read stands in front of the lines behind it. -/
theorem StartsLines.cons {l : Line} {ls : List Line} {before text rest : List Char}
    (hrest : StartsLines ls rest) (hbefore : IsBlankText before)
    (hline : line (text ++ rest) = some (l, rest))
    (htext : ∃ c cs, text = c :: cs ∧ isBlank c = false ∧ c ≠ '\uFEFF') :
    StartsLines (l :: ls) (before ++ (text ++ rest)) := by
  obtain ⟨before', body, rfl, hbefore', hbody, hgives⟩ := hrest
  obtain ⟨c, cs, rfl, hc⟩ := htext
  refine ⟨before, _, rfl, hbefore, by simpa using hc, .cons ?_ ?_ hgives⟩
  · rw [lineAndBlanks, bind_of_some hline,
      bind_of_some (blanks_append hbefore' fun d hd => (hbody d hd).1)]
    rfl
  · simp only [List.length_append, List.length_cons]
    omega

/-- The lines of a text are read. -/
theorem AreLinesText.startsLines {ls : List Line} {text : List Char} (h : AreLinesText ls text) :
    StartsLines ls text := by
  induction h with
  | @last before hbefore => exact ⟨before, [], by simp, hbefore, by simp, .none rfl⟩
  | blank hbefore hne he hrest ih =>
    cases he with
    | feed => exact ih.cons hbefore rfl ⟨_, _, rfl, rfl, by decide⟩
    | returnFeed => exact ih.cons hbefore rfl ⟨_, _, rfl, rfl, by decide⟩
    | none => exact absurd rfl hne
  | @line l ls before text e rest hbefore h he hrest ih =>
    obtain ⟨c, cs, rfl, hc⟩ := h.exists_cons
    have hline := line_append h he
    rw [← List.append_assoc (c :: cs) e rest] at hline ⊢
    exact ih.cons hbefore hline ⟨c, cs ++ e, rfl, hc⟩

/-- The lines of a written document are read. -/
theorem lines_of_isDocumentText {ls : List Line} {text : List Char} (h : IsDocumentText ls text) :
    lines text = some (ls, []) := by
  have hbehind {text : List Char} (h : StartsLines ls text) :
      (do blanks; let ls ← many lineAndBlanks; atEnd; return ls : Reader (List Line)) text =
        some (ls, []) := by
    obtain ⟨before, body, rfl, hbefore, hbody, hgives⟩ := h
    rw [bind_of_some (blanks_append hbefore fun c hc => (hbody c hc).1),
      bind_of_some (many_of_gives hgives)]
    rfl
  cases h with
  | plain h =>
    have hmark : char '\uFEFF' text = none := by
      obtain ⟨before, body, rfl, hbefore, hbody, -⟩ := h.startsLines
      refine char_of_head? (List.head?_append_all (fun c hc => ?_) fun c hc => (hbody c hc).2)
      rcases hbefore.head? c hc with rfl | rfl <;> decide
    exact (bind_of_some (skip_of_none hmark) _).trans (hbehind h.startsLines)
  | marked h => exact (bind_of_some (skip_of_some (char_cons _ _)) _).trans (hbehind h.startsLines)

/-- What a written document says decides what comes of it. -/
theorem parse?_of_isDocumentText {ls : List Line} {text : String}
    (h : IsDocumentText ls text.toList) : parse? text = table? ls := by
  rw [parse?, lines_of_isDocumentText h]
  rfl

end SelectAlgebra.Toml
