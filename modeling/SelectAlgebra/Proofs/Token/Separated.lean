import SelectAlgebra.Proofs.Token.Located

/-!
# Tokens with blanks between them

A blank ends every token, a quoted run that nothing closes apart.  So a text in front of a blank
and the text behind it are read independently of each other, and tokens that are written with a
space between each two of them are read back.

Main results:

- Theorem `Lexeme.locateAll_blank_append`: blanks in front of a text move its tokens.
- Theorem `LocatedToken.ofText_append`: the tokens of two texts with a blank between them.
- Theorem `Lexeme.map_token_ofText_spaced`: tokens with a space between each two are read back.
- Theorem `LocatedToken.ofText_compositional`: both laws for all texts.
-/

namespace SelectAlgebra

/-! ## Moving located tokens -/

/-- The token at a place that is `n` bytes further on. -/
def LocatedToken.shift (n : Nat) (t : LocatedToken) : LocatedToken :=
  ⟨t.token, n + t.start, n + t.stop⟩

namespace Lexeme

/-- Lexemes that start further on are shifted as a whole. -/
theorem locateAll_add (n m : Nat) (ls : List Lexeme) :
    locateAll (n + m) ls = (locateAll m ls).map (LocatedToken.shift n) := by
  induction ls generalizing m with
  | nil => rfl
  | cons l ls ih =>
    rw [locateAll_cons, locateAll_cons, List.map_cons, Nat.add_assoc, ih]
    simp only [locate, LocatedToken.shift, Nat.add_assoc]

/-! ## Blanks in front of a text -/

variable {w b : List Char}

/-- Blanks in front of a text belong to the gap of its first lexeme. -/
theorem next?_blank_append (b : List Char) (hw : ∀ c ∈ w, Text.isBlank c = true) :
    next? (w ++ b) = (next? b).map fun r => (⟨w ++ r.1.gap, r.1.token⟩, r.2) := by
  unfold next?
  rw [List.takeWhile_append_of_pos hw, List.dropWhile_append_of_pos hw]
  cases b.dropWhile Text.isBlank with
  | nil => rfl
  | cons c rest => rfl

/-- Blanks in front of a text move its tokens. -/
theorem locateAll_blank_append (n : Nat) (b : List Char) (hw : ∀ c ∈ w, Text.isBlank c = true) :
    locateAll n (ofText (w ++ b)) = locateAll (n + byteLength w) (ofText b) := by
  have hnext := next?_blank_append b hw
  cases h : next? b with
  | none =>
    rw [h] at hnext
    rw [ofText_eq_nil h, ofText_eq_nil hnext, locateAll_nil, locateAll_nil]
  | some r =>
    rw [h] at hnext
    rw [ofText_eq_cons h, ofText_eq_cons hnext, locateAll_cons, locateAll_cons]
    simp only [locate, source, byteLength_append, Nat.add_assoc]

/-- Blanks in front of a text leave its tokens. -/
theorem map_token_ofText_blank_append (b : List Char) (hw : ∀ c ∈ w, Text.isBlank c = true) :
    (ofText (w ++ b)).map token = (ofText b).map token := by
  rw [← map_token_locateAll 0, locateAll_blank_append 0 b hw, map_token_locateAll]

/-! ## Two texts with a blank between them -/

/-- When its last token is closed, so is every token of a text. -/
theorem terminated_of_getLast? {cs : List Char}
    (h : ∀ l ∈ (ofText cs).getLast?, l.token.Terminated) :
    ∀ l ∈ ofText cs, l.token.Terminated := by
  intro l hl
  by_cases hlast : some l = (ofText cs).getLast?
  · exact h l hlast.symm
  · exact terminated_of_mem_dropLast l (List.mem_dropLast_of_mem_of_ne_getLast? hl hlast)

/-- In front of a blank, a text with closed tokens is read as if it stood alone. -/
theorem exists_ofText_append {a : List Char} (b : List Char)
    (ha : ∀ l ∈ ofText a, l.token.Terminated) (hne : w ≠ [])
    (hw : ∀ c ∈ w, Text.isBlank c = true) :
    ∃ blank, (∀ c ∈ blank, Text.isBlank c = true) ∧
      byteLength (sourceAll (ofText a)) + byteLength blank = byteLength (a ++ w) ∧
      ofText (a ++ (w ++ b)) = ofText a ++ ofText (blank ++ b) := by
  rcases Reads.of_ofText a with ⟨blank, hblank, hreads⟩
  have hbreak : Token.StartsWithBreak (w ++ b) := by
    rcases List.exists_cons_of_ne_nil hne with ⟨c, cs, rfl⟩
    rintro d ⟨⟩
    exact Comment.isBreak_of_isBlank (hw c (by simp))
  refine ⟨blank ++ w, ?_, ?_, ?_⟩
  · intro c hc
    rcases List.mem_append.1 hc with hc | hc
    · exact hblank c hc
    · exact hw c hc
  · rw [← byteLength_append, ← List.append_assoc]
    exact congrArg (fun cs => byteLength (cs ++ w)) hreads.source
  · rw [(hreads.before_break hbreak ha).ofText, List.append_assoc]

end Lexeme

namespace LocatedToken

/-- The located tokens of a text are the tokens of its lexemes. -/
theorem map_token_ofText (cs : List Char) :
    (ofText cs).map token = (Lexeme.ofText cs).map Lexeme.token :=
  Lexeme.map_token_locateAll 0 _

/-- A blank between two texts keeps their tokens apart, unless the first text ends in a quoted run
that nothing closes. -/
theorem ofText_append {a w : List Char} (b : List Char)
    (ha : ∀ t ∈ (ofText a).getLast?, t.token.Terminated) (hne : w ≠ [])
    (hw : ∀ c ∈ w, Text.isBlank c = true) :
    ofText (a ++ (w ++ b)) = ofText a ++ (ofText b).map (shift (byteLength (a ++ w))) := by
  have hclosed : ∀ l ∈ Lexeme.ofText a, l.token.Terminated := by
    apply Lexeme.terminated_of_getLast?
    intro l hl
    have hlast : ((ofText a).map token).getLast? = some l.token := by
      rw [map_token_ofText, List.getLast?_map, hl, Option.map_some]
    rw [List.getLast?_map, Option.map_eq_some_iff] at hlast
    rcases hlast with ⟨t, ht, heq⟩
    rw [← heq]
    exact ha t ht
  rcases Lexeme.exists_ofText_append b hclosed hne hw with ⟨blank, hblank, hlength, hread⟩
  rw [ofText, hread, Lexeme.locateAll_append, Lexeme.locateAll_blank_append _ b hblank,
    Nat.zero_add, hlength]
  exact congrArg _ (Lexeme.locateAll_add _ 0 _)

end LocatedToken

/-! ## Tokens with a space between each two -/

/-- The texts of the tokens with a space between each two of them. -/
def Token.spaced (ts : List Token) : List Char :=
  [' '].intercalate (ts.map Token.text)

@[simp]
theorem Token.spaced_nil : Token.spaced [] = [] :=
  rfl

@[simp]
theorem Token.spaced_singleton (t : Token) : Token.spaced [t] = t.text := by
  simp [Token.spaced]

theorem Token.spaced_cons_cons (t u : Token) (ts : List Token) :
    Token.spaced (t :: u :: ts) = t.text ++ ([' '] ++ Token.spaced (u :: ts)) := by
  simp [Token.spaced, List.intercalate_cons_cons]

namespace Lexeme

/-- A token is the only one of its own text. -/
theorem ofText_text {cs : List Char} :
    ∀ l ∈ ofText cs, ofText l.token.text = [⟨[], l.token⟩] := by
  apply Reads.forall_ofText
  intro cs l rest h
  rcases next?_eq_some h with ⟨c, tail, -, -, hc, hread⟩
  rcases Token.text_of_read hread with ⟨t, htext, -⟩
  have halone : next? l.token.text = some (⟨[], l.token⟩, []) := by
    have := next?_cons t hc
    rw [Token.read_alone hread htext, ← htext] at this
    exact this
  rw [ofText_eq_cons halone, ofText_eq_nil rfl]

/-- Tokens of which each is read from its own text are read from that of all of them, when all but
the last are closed. -/
theorem map_token_ofText_spaced_of {ts : List Token}
    (halone : ∀ t ∈ ts, ofText t.text = [⟨[], t⟩]) (hclosed : ∀ t ∈ ts.dropLast, t.Terminated) :
    (ofText (Token.spaced ts)).map token = ts := by
  induction ts with
  | nil => rw [Token.spaced_nil, ofText_eq_nil rfl, List.map_nil]
  | cons t ts ih =>
    have ht := halone t (by simp)
    cases ts with
    | nil => rw [Token.spaced_singleton, ht]; rfl
    | cons u ts =>
      have hterm : ∀ l ∈ ofText t.text, l.token.Terminated := by
        rw [ht]
        simpa using hclosed t (by simp)
      have hspace : ∀ c ∈ [' '], Text.isBlank c = true := by decide
      rcases exists_ofText_append (Token.spaced (u :: ts)) hterm (by simp) hspace with
        ⟨blank, hblank, -, hread⟩
      have htail := ih (fun x hx => halone x (by simp [hx]))
        fun x hx => hclosed x (by rw [List.dropLast_cons_cons]; simp [hx])
      rw [Token.spaced_cons_cons, hread, ht, List.map_append,
        map_token_ofText_blank_append _ hblank, htail]
      rfl

/-- The tokens of a text are read back when they are written with a space between each two. -/
theorem map_token_ofText_spaced (cs : List Char) :
    (ofText (Token.spaced ((ofText cs).map token))).map token = (ofText cs).map token := by
  apply map_token_ofText_spaced_of
  · intro t ht
    rcases List.mem_map.1 ht with ⟨l, hl, rfl⟩
    exact ofText_text l hl
  · intro t ht
    rw [← List.map_dropLast] at ht
    rcases List.mem_map.1 ht with ⟨l, hl, rfl⟩
    exact terminated_of_mem_dropLast l hl

end Lexeme

/-! ## Both laws -/

namespace LocatedToken

/-- A blank between two texts keeps their tokens apart: when the first does not end in a quoted
run that nothing closes, its tokens stay as they are and those of the second move behind it and
the blank.  So the tokens of every text are read back, kind and text, when they are written with a
space between each two of them. -/
theorem ofText_compositional :
    (∀ a w b : List Char, (∀ t ∈ (ofText a).getLast?, t.token.Terminated) → w ≠ [] →
      (∀ c ∈ w, Text.isBlank c = true) →
        ofText (a ++ w ++ b) = ofText a ++ (ofText b).map (shift (byteLength (a ++ w)))) ∧
    ∀ cs : List Char,
      (ofText (Token.spaced ((ofText cs).map token))).map token = (ofText cs).map token := by
  constructor
  · intro a w b ha hne hw
    rw [List.append_assoc]
    exact ofText_append b ha hne hw
  · intro cs
    rw [map_token_ofText, map_token_ofText]
    exact Lexeme.map_token_ofText_spaced cs

/-- Behind a closed string and a blank, tokens start ten bytes further on. -/
theorem ofText_behind_string :
    (∀ t ∈ (ofText "a<'it''s'".toList).getLast?, t.token.Terminated) ∧
      ofText ("a<'it''s'".toList ++ [' '] ++ "=é'".toList) =
        ofText "a<'it''s'".toList ++ (ofText "=é'".toList).map (shift 10) := by
  have hlast : ∀ t ∈ (ofText "a<'it''s'".toList).getLast?, t.token.Terminated := by
    have hopen : (ofText "a<'it''s'".toList).getLast? =
        some ⟨⟨.string, Token.inQuotes '\x27' "it's".toList⟩, 2, 9⟩ := by
      decide +kernel
    rw [hopen]
    rintro t ⟨⟩ quote cs htext -
    rw [← (List.cons.inj htext).1]
    exact ⟨"it's".toList, rfl⟩
  exact ⟨hlast, ofText_compositional.1 "a<'it''s'".toList [' '] "=é'".toList hlast (by simp)
    (by decide)⟩

end LocatedToken

end SelectAlgebra
