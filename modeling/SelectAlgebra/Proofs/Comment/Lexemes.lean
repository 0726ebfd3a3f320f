import SelectAlgebra.Proofs.Comment.Scan
import SelectAlgebra.Proofs.Token.Lexemes

/-!
# Comments between lexemes

The comment scan and the reader of tokens agree on what is quoted: over a token that is closed,
the scan starts and ends in code and keeps every character.

Main results:

- Theorem `strip_read`: a token that is no start of a comment is kept by the scan.
- Theorem `Reads.strip_rest`: what is left behind the lexemes of a stripped text is stripped.
- Theorem `Reads.strip_exchange`: in front of exchanged text, the lexemes of a stripped text stay.
- Theorem `terminated_of_closed`: a closed text has no token that is open at its end.
- Theorem `next?_strip`: a text and its stripped text start with the same bare word.
-/

namespace SelectAlgebra

namespace Comment

/-! ## Characters that the scan only passes -/

/-- The character opens neither a comment nor a quoted run. -/
def isPlain (c : Char) : Bool :=
  c != '-' && c != '/' && !isQuote c

/-- A plain character opens no comment. -/
theorem opensComment_of_isPlain {c : Char} (cs : List Char) (h : isPlain c = true) :
    opensComment (c :: cs) = false := by
  apply opensComment_eq_false
  · rintro ds rfl -
    exact absurd h (by decide)
  · rintro ds rfl -
    exact absurd h (by decide)

/-- A quote opens no comment. -/
theorem opensComment_of_isQuote {quote : Char} (cs : List Char) (h : isQuote quote = true) :
    opensComment (quote :: cs) = false := by
  apply opensComment_eq_false
  · rintro ds rfl -
    cases h
  · rintro ds rfl -
    cases h

/-- A plain character is no quote. -/
theorem isQuote_of_isPlain {c : Char} (h : isPlain c = true) : isQuote c = false := by
  simp only [isPlain, Bool.and_eq_true, Bool.not_eq_true'] at h
  exact h.2

/-- A character of a word is plain. -/
theorem isPlain_of_isWordChar {c : Char} (h : Token.isWordChar c = true) : isPlain c = true := by
  have h1 : c ≠ '-' := by
    rintro rfl
    exact absurd h (by decide)
  have h2 : c ≠ '/' := by
    rintro rfl
    exact absurd h (by decide)
  simp [isPlain, h1, h2, Token.isQuote_of_isWordChar h]

/-- A break character is plain. -/
theorem isPlain_of_isBreak {c : Char} (h : Token.isBreak c = true) : isPlain c = true := by
  have h1 : c ≠ '-' := by
    rintro rfl
    exact absurd h (by decide)
  have h2 : c ≠ '/' := by
    rintro rfl
    exact absurd h (by decide)
  simp [isPlain, h1, h2, Token.isQuote_of_isBreak h]

/-- A blank is a break character. -/
theorem isBreak_of_isBlank {c : Char} (h : Text.isBlank c = true) : Token.isBreak c = true := by
  simp [Token.isBreak, h]

/-- The scan keeps plain characters and stays in code. -/
theorem scan_plain {w : List Char} (rest : List Char) (h : ∀ c ∈ w, isPlain c = true) :
    strip (w ++ rest) = w ++ strip rest ∧ endMode .code (w ++ rest) = endMode .code rest := by
  induction w with
  | nil => exact ⟨rfl, rfl⟩
  | cons c w ih =>
    have hc : isPlain c = true := h c (by simp)
    have hopen := opensComment_of_isPlain (w ++ rest) hc
    obtain ⟨h1, h2⟩ := ih fun d hd => h d (by simp [hd])
    constructor
    · rw [List.cons_append, strip, stripFrom_code_cons hopen, isQuote_of_isPlain hc]
      exact congrArg _ h1
    · rw [List.cons_append, endMode_code_cons hopen, isQuote_of_isPlain hc]
      exact h2

/-- The scan keeps what stands in a quoted run and stays inside of it. -/
theorem scan_double_append {quote : Char} (inside rest : List Char) (hq : isQuote quote = true) :
    stripFrom (.quoted quote) (Token.double quote inside ++ rest) =
        Token.double quote inside ++ stripFrom (.quoted quote) rest ∧
      endMode (.quoted quote) (Token.double quote inside ++ rest) =
        endMode (.quoted quote) rest := by
  induction inside with
  | nil => exact ⟨rfl, rfl⟩
  | cons c cs ih =>
    by_cases hc : c = quote
    · have hopen := opensComment_of_isQuote (Token.double quote cs ++ rest) hq
      simp [Token.double, hc, stripFrom, endMode, stripFrom_code_cons hopen,
        endMode_code_cons hopen, hq, ih]
    · simp [Token.double, hc, stripFrom, endMode, ih]

/-- The scan keeps a closed quoted run and is back in code behind it. -/
theorem scan_quoted {quote : Char} (inside rest : List Char) (hq : isQuote quote = true) :
    stripFrom (.quoted quote) (Token.double quote inside ++ quote :: rest) =
        Token.double quote inside ++ quote :: strip rest ∧
      endMode (.quoted quote) (Token.double quote inside ++ quote :: rest) =
        endMode .code rest := by
  have hrun := scan_double_append inside (quote :: rest) hq
  simpa [stripFrom, endMode, strip] using hrun

end Comment

/-! ## One token -/

namespace Token

/-- A character of a token of several characters is plain. -/
theorem isPlain_of_isJoined {c : Char} (h : isJoined c = true) : Comment.isPlain c = true := by
  rw [isJoined, Bool.or_eq_true, List.contains_iff_mem] at h
  rcases h with hword | hmark
  · exact Comment.isPlain_of_isWordChar hword
  · have key : ∀ d ∈ ['.', '<', '>', '=', '!', '|', ':'], Comment.isPlain d = true := by decide
    exact key c hmark

/-- A token that opens with no quote is a single character or made of plain characters. -/
theorem isPlain_of_read {c : Char} {cs rest : List Char} {t : Token} (hq : isQuote c = false)
    (h : read c cs = (t, rest)) : t.text = [c] ∨ ∀ d ∈ t.text, Comment.isPlain d = true :=
  (isJoined_of_read hq h).imp_right fun hall d hd => isPlain_of_isJoined (hall d hd)

end Token

namespace Comment

/-- A closed token that is no start of a comment is kept by the scan, which is back in code behind
it. -/
theorem scan_read {c : Char} {cs rest : List Char} {t : Token} (ht : t.Terminated)
    (hopen : opensComment (c :: cs) = false) (h : Token.read c cs = (t, rest)) :
    strip (c :: cs) = t.text ++ strip rest ∧ endMode .code (c :: cs) = endMode .code rest := by
  rcases Token.text_of_read h with ⟨tail, htext, rfl⟩
  cases hq : isQuote c with
  | true =>
    rcases ht c tail htext hq with ⟨inside, hinside⟩
    obtain rfl : tail = Token.double c inside ++ [c] :=
      (List.cons.inj (htext.symm.trans hinside)).2
    rcases scan_quoted inside rest hq with ⟨h1, h2⟩
    rw [List.append_assoc, List.singleton_append] at hopen ⊢
    rw [strip, stripFrom_code_cons hopen, endMode_code_cons hopen, hq, if_pos rfl, h1, h2, htext]
    simp
  | false =>
    rcases Token.isPlain_of_read hq h with hone | hall
    · obtain rfl : tail = [] := (List.cons.inj (htext.symm.trans hone)).2
      rw [List.nil_append] at hopen ⊢
      rw [strip, stripFrom_code_cons hopen, endMode_code_cons hopen, hq, hone]
      exact ⟨rfl, rfl⟩
    · have := scan_plain rest hall
      rw [htext] at this ⊢
      exact this

end Comment

/-! ## Lexemes of a stripped text -/

namespace Comment

/-- A stripped text does not start with a comment. -/
theorem opensComment_of_strip {c : Char} {cs : List Char} (h : strip (c :: cs) = c :: cs) :
    opensComment (c :: cs) = false := by
  cases hopen : opensComment (c :: cs) with
  | false => rfl
  | true =>
    unfold opensComment at hopen
    split at hopen
    · rename_i hcs
      rcases List.cons.inj hcs with ⟨rfl, rfl⟩
      exact absurd (head?_stripFrom_line (congrArg List.head? h)) (by decide)
    · rename_i hcs
      rcases List.cons.inj hcs with ⟨rfl, rfl⟩
      exact absurd (head?_stripFrom_block (congrArg List.head? h)) (by decide)
    · cases hopen

/-- The scan keeps the gap in front of a token. -/
theorem scan_gap {gap : List Char} (rest : List Char) (h : ∀ c ∈ gap, Text.isBlank c = true) :
    strip (gap ++ rest) = gap ++ strip rest ∧ endMode .code (gap ++ rest) = endMode .code rest :=
  scan_plain rest fun c hc => isPlain_of_isBreak (isBreak_of_isBlank (h c hc))

/-- A quoted run that is open at the end of the text is kept, and keeps the scan inside of it. -/
theorem scan_double {quote : Char} (inside : List Char) (hq : isQuote quote = true) :
    stripFrom (.quoted quote) (Token.double quote inside) = Token.double quote inside ∧
      endMode (.quoted quote) (Token.double quote inside) = .quoted quote := by
  have hrun := scan_double_append inside [] hq
  simpa [stripFrom, endMode] using hrun

end Comment

namespace Lexeme

open Comment

variable {cs rest u v w : List Char} {l : Lexeme} {ls : List Lexeme}

/-- A token with a text behind it is terminated. -/
theorem terminated_of_next? (h : next? cs = some (l, rest)) (hrest : rest ≠ []) :
    l.token.Terminated := by
  rcases next?_eq_some h with ⟨c, tail, -, -, -, hread⟩
  exact Token.terminated_of_read hread hrest

/-- Behind a closed lexeme of a stripped text the scan is in code and the text is stripped. -/
theorem scan_next? (ht : l.token.Terminated) (hs : strip cs = cs)
    (h : next? cs = some (l, rest)) :
    strip rest = rest ∧ endMode .code cs = endMode .code rest := by
  rcases next?_eq_some h with ⟨c, tail, rfl, hgap, -, hread⟩
  rcases scan_gap (c :: tail) hgap with ⟨h1, h2⟩
  rw [h1, List.append_cancel_left_eq] at hs
  rcases scan_read ht (opensComment_of_strip hs) hread with ⟨h3, h4⟩
  have happ := Token.read_append c tail
  rw [hread] at happ
  rw [hs, ← happ, List.append_cancel_left_eq] at h3
  exact ⟨h3.symm, h2.trans h4⟩

/-- In front of exchanged text, the first lexeme of a stripped text stays in the stripped text. -/
theorem strip_next?_exchange {x : Char} (v' : List Char) (hx : x ≠ '.')
    (hs : strip (u ++ x :: v) = u ++ x :: v) (h : next? (u ++ x :: v) = some (l, w ++ x :: v)) :
    strip (u ++ x :: v') = l.source ++ strip (w ++ x :: v') := by
  have ht : l.token.Terminated := terminated_of_next? h (by simp)
  rcases next?_eq_some h with ⟨c, tail, hcs, hgap, -, hread⟩
  rcases next?_eq_some (next?_exchange v' hx h) with ⟨c', tail', hcs', -, -, hread'⟩
  rcases Token.text_of_read hread with ⟨t, htext, htail⟩
  rcases Token.text_of_read hread' with ⟨t', htext', htail'⟩
  rcases List.cons.inj (htext.symm.trans htext') with ⟨rfl, rfl⟩
  have hopen : opensComment (c :: tail) = false := by
    rw [hcs, (scan_gap (c :: tail) hgap).1, List.append_cancel_left_eq] at hs
    exact opensComment_of_strip hs
  have hopen' : opensComment (c :: tail') = false := by
    apply opensComment_of_head? hopen
    intro d hd _
    rw [htail', ← List.append_assoc, List.head?_exchange _ x v' v, List.append_assoc,
      ← htail] at hd
    exact hd
  rw [hcs', (scan_gap (c :: tail') hgap).1, (scan_read ht hopen' hread').1, source,
    List.append_assoc]

/-- In front of a lexeme, every token is closed. -/
theorem Reads.terminated (h : Reads cs ls rest) (hrest : rest ≠ []) :
    ∀ l ∈ ls, l.token.Terminated := by
  induction h with
  | done => simp
  | @next cs mid rest l ls hl h ih =>
    have hmid : mid ≠ [] := by
      rintro rfl
      have := h.source
      simp_all
    intro l' hl'
    rcases List.mem_cons.1 hl' with rfl | hl'
    · exact terminated_of_next? hl hmid
    · exact ih hrest l' hl'

/-- Only the last token that is read can be without a closing quote. -/
theorem Reads.terminated_init (h : Reads cs (ls ++ [l]) rest) : ∀ m ∈ ls, m.token.Terminated := by
  rcases h.split with ⟨mid, hls, hlast⟩
  cases hlast with
  | next hnext _ =>
    apply hls.terminated
    rintro rfl
    cases hnext

/-- Only the last token of a text can be without a closing quote. -/
theorem terminated_of_mem_dropLast : ∀ l ∈ (ofText cs).dropLast, l.token.Terminated := by
  rcases Reads.of_ofText cs with ⟨blank, -, hreads⟩
  rcases List.eq_nil_or_concat (ofText cs) with hnil | ⟨ls, l, hls⟩
  · simp [hnil]
  · rw [List.concat_eq_append] at hls
    rw [hls] at hreads ⊢
    rw [List.dropLast_concat]
    exact hreads.terminated_init

/-- What is left behind closed lexemes of a stripped text is stripped, and the scan is in code. -/
theorem Reads.strip_rest (h : Reads cs ls rest) (ht : ∀ l ∈ ls, l.token.Terminated)
    (hs : strip cs = cs) : strip rest = rest ∧ endMode .code cs = endMode .code rest := by
  induction h with
  | done => exact ⟨hs, rfl⟩
  | next hl _ ih =>
    rcases scan_next? (ht _ (by simp)) hs hl with ⟨h1, h2⟩
    obtain ⟨h3, h4⟩ := ih (fun l hl => ht l (by simp [hl])) h1
    exact ⟨h3, h2.trans h4⟩

/-- In front of exchanged text, the lexemes of a stripped text stay in the stripped text. -/
theorem Reads.strip_exchange {x : Char} (v' : List Char) (hx : x ≠ '.')
    (hs : strip (u ++ x :: v) = u ++ x :: v) (h : Reads (u ++ x :: v) ls (w ++ x :: v)) :
    strip (u ++ x :: v') = ls.flatMap Lexeme.source ++ strip (w ++ x :: v') := by
  induction ls generalizing u with
  | nil =>
    have hw : u = w := List.eq_append_of_append_cons (s := []) h.source
    rw [hw]
    rfl
  | cons l ls ih =>
    cases h with
    | @next _ mid _ _ _ hl h =>
      have hmid : mid = ls.flatMap Lexeme.source ++ w ++ x :: v := by
        rw [← h.source, List.append_assoc]
      rw [hmid] at hl h
      have hs' := (scan_next? (terminated_of_next? hl (by simp)) hs hl).1
      rw [strip_next?_exchange v' hx hs hl, ih hs' h, List.flatMap_cons, List.append_assoc]

/-- The last token of a closed text is closed. -/
theorem terminated_of_next?_nil (hc : Closed cs) (h : next? cs = some (l, [])) :
    l.token.Terminated := by
  rcases next?_eq_some h with ⟨c, tail, rfl, hgap, -, hread⟩
  rcases Token.text_of_read hread with ⟨t, htext, htail⟩
  intro quote ds hds hq
  rcases List.cons.inj (hds.symm.trans htext) with ⟨rfl, rfl⟩
  rw [Closed, (scan_gap (quote :: tail) hgap).2,
    endMode_code_cons (opensComment_of_isQuote tail hq), if_pos hq] at hc
  simp only [Token.read, if_pos hq] at hread
  rcases Prod.mk.inj hread with ⟨htok, hnil⟩
  rcases Token.quotedTail_shape quote tail with ⟨inside, hinside, -⟩ | ⟨inside, hinside, -⟩
  · exact ⟨inside, by rw [← htok, hinside]; rfl⟩
  · have happ := Token.quotedTail_append quote tail
    rw [hinside, hnil, List.append_nil] at happ
    rw [← happ, (scan_double inside hq).2] at hc
    cases hc

/-- A closed text without comments has no token that is open at its end. -/
theorem terminated_of_closed {cs : List Char} (hs : strip cs = cs) (hc : Closed cs) :
    ∀ l ∈ ofText cs, l.token.Terminated := by
  cases h : next? cs with
  | none =>
    rw [ofText_eq_nil h]
    simp
  | some r =>
    rcases r with ⟨l, mid⟩
    have hlen := next?_length h
    have hl : l.token.Terminated := by
      by_cases hmid : mid = []
      · exact terminated_of_next?_nil hc (hmid ▸ h)
      · exact terminated_of_next? h hmid
    rcases scan_next? hl hs h with ⟨hs', hmode⟩
    have ih := terminated_of_closed hs' (hmode.symm.trans hc)
    rw [ofText_eq_cons h]
    intro l' hl'
    rcases List.mem_cons.1 hl' with rfl | hl'
    · exact hl
    · exact ih l' hl'
termination_by cs.length

/-! ## The first word -/

/-- What is left of a text behind a bare word does not go on with the word. -/
theorem isWordChar_head?_strip (h : ∀ c ∈ cs.head?, Token.isWordChar c = false) :
    ∀ c ∈ (strip cs).head?, Token.isWordChar c = false := by
  intro d hd
  by_cases hline : d = '\n'
  · rw [hline]
    decide
  · by_cases hblock : d = ' '
    · rw [hblock]
      decide
    · exact h d (head?_of_head?_strip hd ⟨hline, hblock⟩)

/-- Taking the comments out of a text leaves a bare word at its start as it is. -/
theorem next?_strip (hl : l.token.kind = .word) (h : next? cs = some (l, rest)) :
    next? (strip cs) = some (l, strip rest) := by
  rcases next?_eq_some h with ⟨c, tail, rfl, hgap, hc, hread⟩
  rcases Token.of_read_word hl hread with ⟨hd, hall, hhead⟩
  rcases Token.text_of_read hread with ⟨t, htext, rfl⟩
  rw [htext] at hall
  have hplain := scan_plain rest fun d hd => isPlain_of_isWordChar (hall d hd)
  have hword := Token.read_word hd hall (isWordChar_head?_strip hhead)
  have htok : (⟨.word, c :: t⟩ : Token) = l.token := by
    rw [← hl, ← htext]
  rw [(scan_gap _ hgap).1, ← List.cons_append, hplain.1, List.cons_append,
    next?_gap_append hgap hc, hword, htok]

end Lexeme

end SelectAlgebra
