import SelectAlgebra.Proofs.Comment.Scan
import SelectAlgebra.Proofs.Text.LetterCase

/-!
# Letter case and tokens

Comments, quoted runs and tokens are told by characters that are no letters and by classes of
characters that hold a letter in both cases.  So the tokens of a text in lower case are its tokens
in lower case.

Main results:

- Theorem `Comment.strip_lower`: comments are taken out of the same places.
- Theorem `Token.read_lower`: the first token of a text in lower case.
- Theorem `Lexeme.ofText_lower`: all lexemes of a text in lower case.
-/

namespace SelectAlgebra

open Text (lower toLower_eq_iff)

/-! ## Comments -/

namespace Comment

/-- A comment is opened by characters that are no letters. -/
theorem opensComment_lower (cs : List Char) : opensComment (lower cs) = opensComment cs := by
  cases h : opensComment cs with
  | true =>
    unfold opensComment at h
    split at h
    · rfl
    · rfl
    · cases h
  | false =>
    cases cs with
    | nil => rfl
    | cons c cs =>
      apply opensComment_eq_false
      · rintro ds hc hcs
        rw [toLower_eq_iff (by decide)] at hc
        rcases List.map_eq_cons_iff.1 hcs with ⟨d, es, rfl, hd, -⟩
        rw [toLower_eq_iff (by decide)] at hd
        rw [hc, hd] at h
        cases h
      · rintro ds hc hcs
        rw [toLower_eq_iff (by decide)] at hc
        rcases List.map_eq_cons_iff.1 hcs with ⟨d, es, rfl, hd, -⟩
        rw [toLower_eq_iff (by decide)] at hd
        rw [hc, hd] at h
        cases h

/-- The scan is inside of a run that a quote opened, if it is inside of a quoted run. -/
def Mode.Proper (m : Mode) : Prop :=
  ∀ quote, m = .quoted quote → isQuote quote = true

/-- The mode behind a character that may be a quote is a proper one. -/
theorem proper_ite {c : Char} : (if isQuote c then Mode.quoted c else .code).Proper := by
  intro quote h
  split at h
  · rename_i hc
    cases h
    exact hc
  · cases h

/-- A quote has no other case. -/
theorem toLower_eq_quote_iff {c quote : Char} (h : isQuote quote = true) :
    c.toLower = quote ↔ c = quote :=
  toLower_eq_iff (Text.isAlpha_of_isQuote h)

/-- The character that opens a run is no letter, if it is a quote. -/
theorem mode_toLower (c : Char) :
    (if isQuote c.toLower then Mode.quoted c.toLower else .code) =
      if isQuote c then .quoted c else .code := by
  rw [Text.isQuote_toLower]
  split
  · rename_i hc
    rw [(toLower_eq_quote_iff hc).2 rfl]
  · rfl

/-- Comments are taken out of the same places of a text in lower case. -/
theorem stripFrom_lower {m : Mode} (hm : m.Proper) (cs : List Char) :
    stripFrom m (lower cs) = lower (stripFrom m cs) := by
  fun_induction stripFrom m cs with
  | case1 => rfl
  | case2 m _ => cases m <;> first | rfl | contradiction
  | case3 cs ih => exact ih (by simp [Mode.Proper])
  | case4 cs ih => exact ih (by simp [Mode.Proper])
  | case5 c cs h1 h2 ih =>
    have hopens := opensComment_lower (c :: cs)
    rw [opensComment_eq_false h1 h2, Text.lower_cons] at hopens
    rw [Text.lower_cons, stripFrom_code_cons hopens, mode_toLower, ih proper_ite, Text.lower_cons]
  | case6 q c cs ih =>
    have hq := hm q rfl
    have hnext : (if c = q then Mode.code else .quoted q).Proper := by
      split
      · simp [Mode.Proper]
      · exact hm
    simp only [Text.lower_cons, stripFrom, toLower_eq_quote_iff hq, ih hnext]
  | case7 cs ih => exact congrArg _ (ih (by simp [Mode.Proper]))
  | case8 c cs hc ih =>
    have hline : ¬ c.toLower = '\n' := by rwa [toLower_eq_iff (by decide)]
    rw [Text.lower_cons, stripFrom, if_neg hline, ih hm]
  | case9 cs ih => exact congrArg _ (ih (by simp [Mode.Proper]))
  | case10 c cs hc ih =>
    rw [Text.lower_cons, stripFrom, ih hm]
    -- what does not close the comment does not close it in lower case
    intro ds hstar hslash
    rcases List.map_eq_cons_iff.1 hslash with ⟨d, es, rfl, hd, -⟩
    rw [toLower_eq_iff (by decide)] at hstar hd
    exact hc es hstar (by rw [hd])

/-- Comments are taken out of the same places of a text in lower case. -/
theorem strip_lower (cs : List Char) : strip (lower cs) = lower (strip cs) :=
  stripFrom_lower (by simp [Mode.Proper]) cs

end Comment

/-! ## One token -/

/-- The token with its text in lower case. -/
def Token.lower (t : Token) : Token :=
  ⟨t.kind, Text.lower t.text⟩

namespace Token

/-- A token is a keyword in any case of its letters. -/
theorem isKeyword_lower (t : Token) (word : String) :
    t.lower.isKeyword word = t.isKeyword word := by
  simp [isKeyword, lower]

/-- The rest of a quoted text ends at the same place in lower case. -/
theorem quotedTail_lower {quote : Char} (h : isQuote quote = true) (cs : List Char) :
    quotedTail quote (Text.lower cs) =
      (Text.lower (quotedTail quote cs).1, Text.lower (quotedTail quote cs).2) := by
  fun_induction quotedTail quote cs with
  | case1 => rfl
  | case2 c => rfl
  | case3 c d cs hc r ih =>
    have hc' : c.toLower ≠ quote := by rwa [ne_eq, Comment.toLower_eq_quote_iff h]
    rw [Text.lower_cons] at ih
    simp [quotedTail, hc', ih, r]
  | case4 c cs hc r ih =>
    have hc' : c.toLower = quote := by simpa [Comment.toLower_eq_quote_iff h] using hc
    have hquote : quote.toLower = quote := (Comment.toLower_eq_quote_iff h).2 rfl
    simp [quotedTail, hc', hquote, ih, r]
  | case5 c d cs hc hd =>
    have hc' : c.toLower = quote := by simpa [Comment.toLower_eq_quote_iff h] using hc
    have hd' : ¬ d.toLower = quote := by rwa [Comment.toLower_eq_quote_iff h]
    simp [quotedTail, hc', hd']

/-- A number ends at the same place in lower case. -/
theorem numberRun_lower (cs : List Char) :
    numberRun (Text.lower cs) =
      (Text.lower (numberRun cs).1, Text.lower (numberRun cs).2) := by
  have hsplit := Text.takeWhile_lower Text.isDigit_toLower
  simp only [numberRun, (hsplit cs).1, (hsplit cs).2]
  cases cs.dropWhile Char.isDigit with
  | nil => rfl
  | cons c rest =>
    by_cases hc : c = '.'
    · subst hc
      cases rest with
      | nil => rfl
      | cons d ds =>
        have hpoint : ('.' : Char).toLower = '.' := rfl
        simp only [Text.lower_cons, hpoint, Text.isDigit_toLower]
        split
        · rw [← Text.lower_cons, (hsplit (d :: ds)).1, (hsplit (d :: ds)).2]
          simp
        · simp
    · have hc' : ¬ c.toLower = '.' := by rwa [toLower_eq_iff (by decide)]
      simp [hc, hc']

/-- Punctuation is read alike in lower case. -/
theorem readPunctuation_lower (c : Char) (cs : List Char) :
    readPunctuation c.toLower (Text.lower cs) =
      ((readPunctuation c cs).1.lower, Text.lower (readPunctuation c cs).2) := by
  unfold readPunctuation
  rw [Text.punctuation?_toLower]
  cases punctuation? c with
  | some kind => rfl
  | none =>
    cases cs with
    | nil => rfl
    | cons d ds =>
      simp only [Text.lower_cons, Text.isOperatorPair_toLower]
      split <;> rfl

/-- The first token of a text in lower case. -/
theorem read_lower (c : Char) (cs : List Char) :
    read c.toLower (Text.lower cs) = ((read c cs).1.lower, Text.lower (read c cs).2) := by
  have hword := Text.takeWhile_lower Text.isWordChar_toLower cs
  unfold read
  rw [Text.isQuote_toLower, Text.isDigit_toLower, Text.isWordChar_toLower]
  split
  · rename_i hquote
    have hc := (Comment.toLower_eq_quote_iff hquote).2 rfl
    simp [hc, quotedTail_lower hquote, lower]
  · split
    · rw [← Text.lower_cons, numberRun_lower]
      rfl
    · split
      · simp [hword, lower]
      · exact readPunctuation_lower c cs

end Token

/-! ## All tokens -/

namespace Lexeme

/-- The lexeme with its text in lower case. -/
def lower (l : Lexeme) : Lexeme :=
  ⟨Text.lower l.gap, l.token.lower⟩

/-- The next lexeme of a text in lower case is the next one in lower case. -/
theorem next?_lower (cs : List Char) :
    next? (Text.lower cs) = (next? cs).map fun r => (r.1.lower, Text.lower r.2) := by
  have hgap := Text.takeWhile_lower Text.isBlank_toLower cs
  unfold next?
  rw [hgap.1, hgap.2]
  cases cs.dropWhile Text.isBlank with
  | nil => rfl
  | cons c rest => simp [Token.read_lower, lower]

/-- The lexemes of a text in lower case are its lexemes in lower case. -/
theorem ofText_lower (cs : List Char) : ofText (Text.lower cs) = (ofText cs).map lower := by
  fun_induction ofText cs with
  | case1 cs hnone =>
    have hnext := next?_lower cs
    rw [hnone] at hnext
    rw [ofText_eq_nil hnext, List.map_nil]
  | case2 cs l rest hsome ih =>
    have hnext := next?_lower cs
    rw [hsome] at hnext
    rw [ofText_eq_cons hnext, ih, List.map_cons]

end Lexeme

end SelectAlgebra
