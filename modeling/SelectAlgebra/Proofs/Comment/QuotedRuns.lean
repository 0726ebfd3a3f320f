import SelectAlgebra.Proofs.Comment.Edit
import SelectAlgebra.Proofs.Token.Separated

/-!
# Comments are blanks

A closed comment stands for one blank, a space or a newline, and nothing around it changes when it
goes.  The quoted runs of a text that lie outside of its comments are found by looking at the text
itself; they are the quoted tokens of what is left without the comments.

Main results:

- Theorem `strip_append_comment`: a closed comment behind closed text becomes one blank.
- Theorem `quotedTokens_cons`: a character that is no quote has no part in the quoted tokens.
- Theorem `exists_quotedRuns`: every text has quoted runs.
- Theorem `quotedRuns_iff`: the quoted runs of a text are the quoted tokens of the stripped text.
- Theorem `strip_blanks`: comments are exactly blanks.
-/

namespace SelectAlgebra.Comment

/-! ## Closed comments -/

/-- A comment up to its end and the blank that stands for it.  The first `*/` behind the opening
closes a block comment, and the newline a line comment. -/
inductive IsComment : List Char → Char → Prop
  | block {body : List Char} : ¬ ['*', '/'] <:+: body →
      IsComment ('/' :: '*' :: (body ++ ['*', '/'])) ' '
  | line {body : List Char} : '\n' ∉ body → IsComment ('-' :: '-' :: (body ++ ['\n'])) '\n'

section Bodies

variable {body : List Char}

/-- A body without the closing mark does not close its comment. -/
theorem not_closesBlock {c : Char} {rest : List Char} (h : ¬ ['*', '/'] <:+: c :: body)
    (hrest : rest.head? ≠ some '/') : ∀ ds, c = '*' → body ++ rest = '/' :: ds → False := by
  rintro ds rfl hbody
  cases body with
  | nil =>
    rw [List.nil_append] at hbody
    exact hrest (by rw [hbody]; rfl)
  | cons e es =>
    rw [(List.cons.inj hbody).1] at h
    exact h ⟨[], es, rfl⟩

/-- The scan leaves nothing of the inside of a block comment. -/
theorem stripFrom_block_append (rest : List Char) (h : ¬ ['*', '/'] <:+: body)
    (hrest : rest.head? ≠ some '/') : stripFrom .block (body ++ rest) = stripFrom .block rest := by
  induction body with
  | nil => rfl
  | cons c body ih =>
    rw [List.cons_append, stripFrom]
    · exact ih fun hbody => h (hbody.trans (List.suffix_cons c body).isInfix)
    · exact not_closesBlock h hrest

/-- A line comment reaches over a text without a line feed. -/
theorem stripFrom_line_append (rest : List Char) (h : '\n' ∉ body) :
    stripFrom .line (body ++ rest) = stripFrom .line rest := by
  induction body with
  | nil => rfl
  | cons c body ih =>
    rw [List.mem_cons, not_or] at h
    rw [List.cons_append, stripFrom, if_neg (Ne.symm h.1), ih h.2]

end Bodies

/-- In front of any text, a closed comment becomes its blank. -/
theorem strip_comment_append {comment : List Char} {w : Char} (s : List Char)
    (h : IsComment comment w) : strip (comment ++ s) = w :: strip s := by
  cases h with
  | @block body hbody =>
    have hskip := stripFrom_block_append ('*' :: '/' :: s) hbody (by simp)
    rw [List.cons_append, List.cons_append, List.append_assoc]
    simp only [strip, stripFrom, List.cons_append, List.nil_append, hskip]
  | @line body hbody =>
    have hskip := stripFrom_line_append ('\n' :: s) hbody
    rw [List.cons_append, List.cons_append, List.append_assoc]
    simp only [strip, stripFrom, List.cons_append, List.nil_append, hskip, if_true]

/-- A closed comment behind closed text becomes one blank, unless the text ends in `-` in front of
a line comment. -/
theorem strip_append_comment {p comment : List Char} {w : Char} (s : List Char)
    (h : IsComment comment w) (hp : Closed p) (hdash : w = '\n' → p.getLast? ≠ some '-') :
    strip (p ++ comment ++ s) = strip p ++ w :: strip s := by
  have hseam : Seam p (comment ++ s) := by
    cases h with
    | block _ => exact seam_of_head? (by rintro d ⟨⟩; decide)
    | line _ =>
      rintro c hc d ⟨⟩
      apply opensComment_eq_false
      · rintro ds rfl -
        exact hdash rfl hc
      · rintro ds - hds
        cases hds
  rw [List.append_assoc, strip, stripFrom_append_of_seam hseam hp, ← strip, ← strip,
    strip_comment_append s h]

/-! ## Quoted tokens -/

/-- The quoted tokens of a text, in order. -/
def quotedTokens (cs : List Char) : List Token :=
  ((Lexeme.ofText cs).map Lexeme.token).filter Token.isQuoted

theorem quotedTokens_nil : quotedTokens [] = [] := by
  rw [quotedTokens, Lexeme.ofText_eq_nil rfl]
  rfl

/-- The quoted tokens of a text are its first token, if that is quoted, and those of the rest. -/
theorem quotedTokens_of_next? {cs rest : List Char} {l : Lexeme}
    (h : Lexeme.next? cs = some (l, rest)) :
    quotedTokens cs = (if l.token.isQuoted then [l.token] else []) ++ quotedTokens rest := by
  rw [quotedTokens, Lexeme.ofText_eq_cons h, List.map_cons, List.filter_cons]
  split
  · rfl
  · rfl

/-- Characters that are no quotes are passed over one by one. -/
theorem quotedTokens_append_of_step {n : Nat} {front rest : List Char}
    (hstep : ∀ c cs, isQuote c = false → cs.length < n → quotedTokens (c :: cs) = quotedTokens cs)
    (hlength : (front ++ rest).length ≤ n) (hfront : ∀ c ∈ front, isQuote c = false) :
    quotedTokens (front ++ rest) = quotedTokens rest := by
  induction front with
  | nil => rfl
  | cons c front ih =>
    rw [List.cons_append, List.length_cons] at hlength
    rw [List.cons_append, hstep c (front ++ rest) (hfront c (by simp)) (by omega)]
    exact ih (by omega) fun d hd => hfront d (by simp [hd])

/-- A character that is no quote has no part in the quoted tokens. -/
theorem quotedTokens_cons {c : Char} (cs : List Char) (h : isQuote c = false) :
    quotedTokens (c :: cs) = quotedTokens cs := by
  induction hn : cs.length using Nat.strongRecOn generalizing c cs with
  | ind n ih =>
    cases hblank : Text.isBlank c with
    | true =>
      have hc : ∀ d ∈ [c], Text.isBlank d = true := by simpa using hblank
      have hmove := Lexeme.map_token_ofText_blank_append cs hc
      rw [quotedTokens, ← List.singleton_append, hmove]
      rfl
    | false =>
      cases hread : Token.read c cs with
      | mk t rest =>
        have hnext : Lexeme.next? (c :: cs) = some (⟨[], t⟩, rest) := by
          rw [Lexeme.next?_cons cs hblank, hread]
        rcases Token.text_of_read hread with ⟨tail, htext, rfl⟩
        have hquoted := (Token.isQuoted_of_read hread).trans h
        have htail : ∀ d ∈ tail, isQuote d = false := by
          intro d hd
          rcases Token.isPlain_of_read h hread with hone | hall
          · rw [htext] at hone
            rw [(List.cons.inj hone).2] at hd
            cases hd
          · exact isQuote_of_isPlain (hall d (by rw [htext]; simp [hd]))
        have hpass : quotedTokens (tail ++ rest) = quotedTokens rest :=
          quotedTokens_append_of_step (fun d ds hd hlt => ih ds.length hlt ds hd rfl)
            (Nat.le_of_eq hn) htail
        rw [quotedTokens_of_next? hnext, hquoted, hpass]
        rfl

/-- A closed quoted run is the first quoted token of the text that it starts. -/
theorem quotedTokens_inQuotes {quote : Char} (inside : List Char) {rest : List Char}
    (hquote : isQuote quote = true) (hrest : rest.head? ≠ some quote) :
    (quotedTokens (Token.inQuotes quote inside ++ rest)).map Token.text =
      Token.inQuotes quote inside :: (quotedTokens rest).map Token.text := by
  have hgap : ∀ c ∈ [], Text.isBlank c = true := by simp
  have hnext := (Lexeme.scan_inQuotes inside hquote hrest hgap).1
  have hquoted : (⟨if quote = '\x27' then .string else .quotedName,
      Token.inQuotes quote inside⟩ : Token).isQuoted = true := by
    rw [Token.isQuoted_iff]
    dsimp only
    split
    · exact Or.inl rfl
    · exact Or.inr rfl
  rw [List.nil_append] at hnext
  rw [quotedTokens_of_next? hnext, if_pos hquoted]
  rfl

/-- A quoted run that reaches to the end of the text is the only quoted token of it. -/
theorem quotedTokens_unclosed {quote : Char} (inside : List Char) (hquote : isQuote quote = true) :
    (quotedTokens (quote :: Token.double quote inside)).map Token.text =
      [quote :: Token.double quote inside] := by
  have hblank := Lexeme.isBlank_of_isQuote hquote
  have hnext := Lexeme.next?_cons (Token.double quote inside) hblank
  have hread : Token.read quote (Token.double quote inside) =
      (⟨if quote = '\x27' then .string else .quotedName, quote :: Token.double quote inside⟩,
        []) := by
    rw [Token.read, if_pos hquote, Token.quotedTail_double]
  have hquoted := (Token.isQuoted_of_read hread).trans hquote
  rw [hread] at hnext
  rw [quotedTokens_of_next? hnext, if_pos hquoted, quotedTokens_nil]
  rfl

/-! ## Quoted runs of a text with comments -/

/-- The quoted runs of a text that lie outside of its comments, in order.  A run reaches to the
next quote of its kind that is not written twice, or to the end of the text; a comment reaches to
its end, or to the end of the text. -/
inductive QuotedRuns : List Char → List (List Char) → Prop
  | nil : QuotedRuns [] []
  | code {c : Char} {cs : List Char} {runs : List (List Char)} : isQuote c = false →
      opensComment (c :: cs) = false → QuotedRuns cs runs → QuotedRuns (c :: cs) runs
  | closed {quote : Char} {inside cs : List Char} {runs : List (List Char)} :
      isQuote quote = true → cs.head? ≠ some quote → QuotedRuns cs runs →
      QuotedRuns (Token.inQuotes quote inside ++ cs) (Token.inQuotes quote inside :: runs)
  | unclosed {quote : Char} {inside : List Char} : isQuote quote = true →
      QuotedRuns (quote :: Token.double quote inside) [quote :: Token.double quote inside]
  | comment {comment cs : List Char} {w : Char} {runs : List (List Char)} :
      IsComment comment w → QuotedRuns cs runs → QuotedRuns (comment ++ cs) runs
  | openLine {body : List Char} : '\n' ∉ body → QuotedRuns ('-' :: '-' :: body) []
  | openBlock {body : List Char} : ¬ ['*', '/'] <:+: body → QuotedRuns ('/' :: '*' :: body) []

/-- What is left for a comment is no quote. -/
theorem isQuote_blank {comment : List Char} {w : Char} (h : IsComment comment w) :
    isQuote w = false := by
  cases h with
  | block _ => decide
  | line _ => decide

/-- Behind a closed quoted run, what is left of the text does not go on with the run. -/
theorem head?_strip_ne {quote : Char} {cs : List Char} (hquote : isQuote quote = true)
    (h : cs.head? ≠ some quote) : (strip cs).head? ≠ some quote := by
  intro hhead
  refine h (head?_of_head?_strip hhead ⟨?_, ?_⟩)
  · rintro rfl
    cases hquote
  · rintro rfl
    cases hquote

/-- The quoted runs of a text are quoted tokens of what the scan leaves of it. -/
theorem QuotedRuns.quotedTokens_strip {cs : List Char} {runs : List (List Char)}
    (h : QuotedRuns cs runs) : (quotedTokens (strip cs)).map Token.text = runs := by
  induction h with
  | nil => exact congrArg _ quotedTokens_nil
  | @code c cs runs hquote hopen _ ih =>
    rw [strip, stripFrom_code_cons hopen, hquote, if_neg Bool.false_ne_true, ← strip,
      quotedTokens_cons _ hquote, ih]
  | @closed quote inside cs runs hquote hhead _ ih =>
    have hgap : ∀ c ∈ [], Text.isBlank c = true := by simp
    rw [(Lexeme.scan_inQuotes inside hquote hhead hgap).2,
      quotedTokens_inQuotes inside hquote (head?_strip_ne hquote hhead), ih]
  | @unclosed quote inside hquote =>
    rw [strip, stripFrom_code_cons (opensComment_of_isQuote _ hquote), if_pos hquote,
      (scan_double inside hquote).1, quotedTokens_unclosed inside hquote]
  | @comment comment cs w runs hcomment _ ih =>
    rw [strip_comment_append cs hcomment, quotedTokens_cons _ (isQuote_blank hcomment), ih]
  | @openLine body hbody =>
    have hskip := stripFrom_line_append [] hbody
    rw [List.append_nil] at hskip
    rw [strip, stripFrom, hskip]
    exact congrArg _ quotedTokens_nil
  | @openBlock body hbody =>
    have hskip := stripFrom_block_append [] hbody (by simp)
    rw [List.append_nil] at hskip
    rw [strip, stripFrom, hskip, stripFrom, quotedTokens_cons [] (by decide), quotedTokens_nil]
    rfl

/-- A text that closes a block comment is cut behind the first place where it does. -/
theorem exists_closingBlock {body : List Char} (h : ['*', '/'] <:+: body) :
    ∃ front rest, body = front ++ '*' :: '/' :: rest ∧ ¬ ['*', '/'] <:+: front := by
  induction body with
  | nil => simp at h
  | cons c body ih =>
    by_cases hhere : ['*', '/'] <+: c :: body
    · rcases hhere with ⟨rest, hrest⟩
      exact ⟨[], rest, hrest.symm, by simp⟩
    · rcases ih ((List.infix_cons_iff.1 h).resolve_left hhere) with ⟨front, rest, rfl, hfront⟩
      refine ⟨c :: front, rest, rfl, ?_⟩
      intro hinfix
      rcases List.infix_cons_iff.1 hinfix with hstart | hlater
      · exact hhere (hstart.trans (List.prefix_append (c :: front) _))
      · exact hfront hlater

/-- A text that opens a comment starts with a closed one, or the comment is all of it. -/
theorem exists_comment_of_opensComment {cs : List Char} (h : opensComment cs = true) :
    (∃ comment w rest, IsComment comment w ∧ cs = comment ++ rest) ∨ QuotedRuns cs [] := by
  unfold opensComment at h
  split at h
  · rename_i body
    by_cases hbody : '\n' ∈ body
    · rcases List.eq_append_cons_of_mem hbody with ⟨front, rest, rfl, hfront⟩
      exact Or.inl ⟨_, _, rest, .line hfront, by simp⟩
    · exact Or.inr (.openLine hbody)
  · rename_i body
    by_cases hbody : ['*', '/'] <:+: body
    · rcases exists_closingBlock hbody with ⟨front, rest, rfl, hfront⟩
      exact Or.inl ⟨_, _, rest, .block hfront, by simp⟩
    · exact Or.inr (.openBlock hbody)
  · cases h

/-- Every text has quoted runs. -/
theorem exists_quotedRuns (cs : List Char) : ∃ runs, QuotedRuns cs runs := by
  induction hn : cs.length using Nat.strongRecOn generalizing cs with
  | ind n ih =>
    subst hn
    cases hopen : opensComment cs with
    | true =>
      rcases exists_comment_of_opensComment hopen with ⟨comment, w, rest, hcomment, rfl⟩ | hall
      · have hne : 0 < comment.length := by cases hcomment <;> simp
        rcases ih rest.length (by rw [List.length_append]; omega) rest rfl with ⟨runs, hruns⟩
        exact ⟨runs, .comment hcomment hruns⟩
      · exact ⟨[], hall⟩
    | false =>
      cases cs with
      | nil => exact ⟨[], .nil⟩
      | cons c cs =>
        cases hquote : isQuote c with
        | false =>
          rcases ih cs.length (by simp) cs rfl with ⟨runs, hruns⟩
          exact ⟨runs, .code hquote hopen hruns⟩
        | true =>
          rcases Token.exists_inQuotes c cs with ⟨inside, rest, hcs, hhead⟩ | ⟨inside, rfl⟩
          · rw [hcs] at ih ⊢
            have hshort : rest.length < (Token.inQuotes c inside ++ rest).length := by
              rw [Token.inQuotes, List.length_append, List.length_cons]
              omega
            rcases ih rest.length hshort rest rfl with ⟨runs, hruns⟩
            exact ⟨_, .closed hquote hhead hruns⟩
          · exact ⟨_, .unclosed hquote⟩

/-- The quoted runs of a text that lie outside of its comments are the quoted tokens of the
stripped text, in order. -/
theorem quotedRuns_iff {cs : List Char} {runs : List (List Char)} :
    QuotedRuns cs runs ↔ (quotedTokens (strip cs)).map Token.text = runs := by
  constructor
  · exact QuotedRuns.quotedTokens_strip
  · rintro rfl
    rcases exists_quotedRuns cs with ⟨runs, hruns⟩
    rwa [hruns.quotedTokens_strip]

/-! ## Comments are blanks -/

/-- A closed comment behind closed text stands for one blank, a stripped text is stripped, and the
quoted tokens of a stripped text are the quoted runs of the text outside of its comments. -/
theorem strip_blanks :
    (∀ p comment s w, IsComment comment w → Closed p → (w = '\n' → p.getLast? ≠ some '-') →
      strip (p ++ comment ++ s) = strip p ++ w :: strip s) ∧
    (∀ cs, strip (strip cs) = strip cs) ∧
    (∀ cs runs, QuotedRuns cs runs ↔ (quotedTokens (strip cs)).map Token.text = runs) :=
  ⟨fun _ _ s _ hcomment hp hdash => strip_append_comment s hcomment hp hdash, strip_strip,
    fun _ _ => quotedRuns_iff⟩

/-- A line comment that holds an apostrophe, behind a string that holds two dashes, leaves its
newline. -/
theorem strip_line_behind_string :
    IsComment "-- it's\n".toList '\n' ∧ Closed "a = '--'".toList ∧
      "a = '--'".toList.getLast? ≠ some '-' ∧
      strip ("a = '--'".toList ++ "-- it's\n".toList ++ "/* ' */'b'".toList) =
        strip "a = '--'".toList ++ '\n' :: strip "/* ' */'b'".toList ∧
      QuotedRuns ("a = '--'".toList ++ "-- it's\n".toList ++ "/* ' */'b'".toList)
        ["'--'".toList, "'b'".toList] := by
  have hcomment : IsComment "-- it's\n".toList '\n' := by
    have hbody : '\n' ∉ " it's".toList := by decide
    exact .line hbody
  have hclosed : Closed "a = '--'".toList := by decide
  have hdash : "a = '--'".toList.getLast? ≠ some '-' := by decide
  refine ⟨hcomment, hclosed, hdash, ?_, ?_⟩
  · exact strip_blanks.1 _ _ _ _ hcomment hclosed fun _ => hdash
  · apply (strip_blanks.2.2 _ _).2
    decide +kernel

end SelectAlgebra.Comment
