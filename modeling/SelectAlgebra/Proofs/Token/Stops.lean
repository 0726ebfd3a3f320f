import SelectAlgebra.Proofs.Token.Legible

/-!
# Tokens and what stands behind them

A token takes as many characters as it can.  So a token that was read from a text is read again in
front of another text exactly when that text does not go on with it, and tokens that are written
one behind the other are read back exactly when each of them stops where the next one starts.

Main results:

- Theorem `Token.stops_of_read`: a token stops in front of the text that reading leaves.
- Theorem `Token.read_of_stops`: a token is read in front of every text in front of which it stops.
- Theorem `Lexeme.next?_source_append_iff`: the same for a lexeme.
- Theorem `Lexeme.reads_of_map_token_eq`: where the tokens are read back, the gaps are too.
-/

namespace SelectAlgebra

namespace Token

/-- The token stops in front of the text: the text does not start with a character that would go on
with the token.  A number without a point goes on with a point that a digit follows. -/
def Stops (t : Token) (w : List Char) : Prop :=
  match t.kind with
  | .word => ∀ d ∈ w.head?, isWordChar d = false
  | .quotedName | .string => w.head? ≠ t.text.head?
  | .number => (∀ d ∈ w.head?, d.isDigit = false) ∧ ('.' ∈ t.text ∨ EndsWhole w)
  | .operator => ∀ c, t.text = [c] → ∀ d ∈ w.head?, isOperatorPair c d = false
  | _ => True

variable {c : Char} {u w : List Char} {t : Token}

/-! ## A token stops where reading stops -/

/-- A quoted token stops in front of anything but its own quote. -/
theorem stops_inQuotes_iff {quote : Char} {text : List Char} :
    Stops ⟨if quote = '\x27' then .string else .quotedName, quote :: text⟩ w ↔
      w.head? ≠ some quote := by
  by_cases hquote : quote = '\x27'
  · rw [if_pos hquote]
    rfl
  · rw [if_neg hquote]
    rfl

/-- Behind a quoted text its quote does not stand. -/
theorem head?_ne_of_quotedTail {quote : Char} {text : List Char}
    (h : quotedTail quote u = (text, w)) : w.head? ≠ some quote := by
  have hshape := quotedTail_shape quote u
  rw [h] at hshape
  rcases hshape with ⟨-, -, hhead⟩ | ⟨-, -, hnil⟩
  · exact hhead
  · have hw : w = [] := hnil
    simp [hw]

/-- A number that is read stops where it does. -/
theorem stops_of_numberRun {text : List Char} (h : numberRun u = (text, w)) :
    Stops ⟨.number, text⟩ w := by
  rcases numberRun_eq_iff.1 h with ⟨-, ⟨-, hends⟩ | ⟨whole, fraction, rfl, -, -, -, hhead⟩⟩
  · exact ⟨hends.1, Or.inr hends⟩
  · exact ⟨hhead, Or.inl (by simp)⟩

/-- Punctuation that is read stops where it does. -/
theorem stops_of_readPunctuation (h : readPunctuation c u = (t, w)) : t.Stops w := by
  unfold readPunctuation at h
  split at h
  · rename_i kind hkind
    rcases Prod.mk.inj h with ⟨rfl, -⟩
    have hnone : kind = .leftParen ∨ kind = .rightParen ∨ kind = .comma ∨ kind = .semicolon ∨
        kind = .dot ∨ kind = .star := by
      unfold punctuation? at hkind
      split at hkind <;> simp_all
    rcases hnone with rfl | rfl | rfl | rfl | rfl | rfl <;> exact trivial
  · split at h
    · rename_i d ds
      split at h
      · -- an operator of two characters never goes on
        rcases Prod.mk.inj h with ⟨rfl, -⟩
        intro a ha
        cases ha
      · rename_i hpair
        rcases Prod.mk.inj h with ⟨rfl, rfl⟩
        intro a ha b hb
        cases ha
        cases hb
        simpa using hpair
    · rcases Prod.mk.inj h with ⟨rfl, rfl⟩
      intro a _ b hb
      cases hb

/-- A token stops in front of the text that reading leaves. -/
theorem stops_of_read (h : read c u = (t, w)) : t.Stops w := by
  unfold read at h
  dsimp only at h
  split at h
  · rcases Prod.mk.inj h with ⟨rfl, htail⟩
    exact stops_inQuotes_iff.2 (head?_ne_of_quotedTail (Prod.ext rfl htail))
  · split at h
    · rcases Prod.mk.inj h with ⟨rfl, htail⟩
      exact stops_of_numberRun (Prod.ext rfl htail)
    · split at h
      · rcases Prod.mk.inj h with ⟨rfl, hrest⟩
        exact (List.takeWhile_dropWhile_iff.1 ⟨rfl, hrest⟩).2.2
      · exact stops_of_readPunctuation h

/-! ## A token is read wherever it stops -/

/-- A closed quoted text is read alike in front of where it stops. -/
theorem quotedTail_of_stops {quote : Char} {text : List Char}
    (ht : ∃ inside, text = double quote inside ++ [quote])
    (h : quotedTail quote u = (text, [])) (hw : w.head? ≠ some quote) :
    quotedTail quote (u ++ w) = (text, w) := by
  have happ := quotedTail_append quote u
  rw [h, List.append_nil] at happ
  rcases ht with ⟨inside, rfl⟩
  rw [← happ, List.append_assoc]
  exact quotedTail_closed inside hw

/-- A number is read alike in front of where it stops. -/
theorem numberRun_of_stops {text : List Char} (h : numberRun u = (text, []))
    (hw : Stops ⟨.number, text⟩ w) : numberRun (u ++ w) = (text, w) := by
  rw [numberRun_eq_iff] at h ⊢
  rcases h with ⟨rfl, hshape⟩
  refine ⟨by rw [List.append_nil], ?_⟩
  rcases hw with ⟨hhead, hpoint⟩
  rcases hshape with ⟨hdigits, -⟩ | ⟨whole, fraction, rfl, hwhole, hne, hfraction, -⟩
  · left
    refine ⟨hdigits, hpoint.resolve_left ?_⟩
    intro hmem
    exact absurd (hdigits '.' hmem) (by decide)
  · exact Or.inr ⟨whole, fraction, rfl, hwhole, hne, hfraction, hhead⟩

/-- Punctuation is read alike in front of where it stops. -/
theorem readPunctuation_of_stops (h : readPunctuation c u = (t, [])) (hw : t.Stops w) :
    readPunctuation c (u ++ w) = (t, w) := by
  have happ := readPunctuation_append c u
  rw [h, List.append_nil] at happ
  unfold readPunctuation at h ⊢
  cases hkind : punctuation? c with
  | some kind =>
    simp only [hkind, Prod.mk.injEq] at h ⊢
    rcases h with ⟨rfl, rfl⟩
    exact ⟨rfl, rfl⟩
  | none =>
    simp only [hkind] at h ⊢
    cases u with
    | nil =>
      rcases Prod.mk.inj h with ⟨rfl, -⟩
      cases w with
      | nil => rfl
      | cons d ds =>
        have hpair : isOperatorPair c d = false := hw c rfl d rfl
        simp [hpair]
    | cons d u =>
      simp only [List.cons_append] at h ⊢
      split at h
      · rename_i hpair
        rcases Prod.mk.inj h with ⟨rfl, rfl⟩
        rw [if_pos hpair]
        rfl
      · cases (Prod.mk.inj h).2

/-- A token is read in front of every text in front of which it stops. -/
theorem read_of_stops (h : read c u = (t, [])) (ht : t.Terminated) (hw : t.Stops w) :
    read c (u ++ w) = (t, w) := by
  unfold read at h ⊢
  dsimp only at h ⊢
  split at h
  · rename_i hquote
    rcases Prod.mk.inj h with ⟨rfl, htail⟩
    have hclosed : ∃ inside, (quotedTail c u).1 = double c inside ++ [c] := by
      rcases ht c _ rfl hquote with ⟨inside, hinside⟩
      exact ⟨inside, (List.cons.inj hinside).2⟩
    have hhead : w.head? ≠ some c := stops_inQuotes_iff.1 hw
    rw [if_pos hquote, quotedTail_of_stops hclosed (Prod.ext rfl htail) hhead]
  · rename_i hquote
    rw [if_neg hquote]
    split at h
    · rename_i hdigit
      rcases Prod.mk.inj h with ⟨rfl, htail⟩
      rw [if_pos hdigit, ← List.cons_append, numberRun_of_stops (Prod.ext rfl htail) hw]
    · rename_i hdigit
      rw [if_neg hdigit]
      split at h
      · rename_i hword
        rcases Prod.mk.inj h with ⟨rfl, hrest⟩
        obtain ⟨happ, hall, -⟩ := List.takeWhile_dropWhile_iff.1 ⟨rfl, hrest⟩
        rw [List.append_nil] at happ
        have hsplit : u ++ w = u.takeWhile isWordChar ++ w := by rw [← happ]
        obtain ⟨htake, hdrop⟩ := List.takeWhile_dropWhile_iff.2 ⟨hsplit, hall, hw⟩
        rw [if_pos hword, htake, hdrop]
      · rename_i hword
        rw [if_neg hword]
        exact readPunctuation_of_stops h hw

/-- Behind its first characters the text may be exchanged, unless a digit comes up behind a
point. -/
theorem Stops.exchange {s v v' : List Char} (hs : s ≠ [])
    (hdigit : s = ['.'] → (∀ d ∈ v.head?, d.isDigit = false) → ∀ d ∈ v'.head?, d.isDigit = false)
    (h : t.Stops (s ++ v)) : t.Stops (s ++ v') := by
  rcases List.exists_cons_of_ne_nil hs with ⟨x, s, rfl⟩
  rw [Stops, List.cons_append] at h ⊢
  cases hkind : t.kind with
  | number =>
    simp only [hkind] at h ⊢
    refine ⟨h.1, h.2.imp_right fun hends => ⟨hends.1, ?_⟩⟩
    intro d ds heq
    obtain ⟨rfl, htail⟩ := List.cons.inj heq
    cases s with
    | nil =>
      apply hdigit rfl
      · intro a ha
        cases v with
        | nil => cases ha
        | cons _ v =>
          cases ha
          exact hends.2 a v rfl
      · have hv' : v' = d :: ds := htail
        rw [hv']
        rfl
    | cons y s =>
      obtain ⟨rfl, -⟩ := List.cons.inj htail
      exact hends.2 y (s ++ v) rfl
  | word | quotedName | string | operator =>
    simp only [hkind] at h ⊢
    exact h
  | leftParen | rightParen | comma | semicolon | dot | star => trivial

/-! ## Names and stars behind a token -/

/-- The tokens become one where no blank stands between them: two bare words, or two names in the
same quotes. -/
def Merges (t u : Token) : Prop :=
  (t.kind = .word ∧ u.kind = .word) ∨
    (t.kind = .quotedName ∧ u.kind = .quotedName ∧ t.text.head? = u.text.head?)

instance (t u : Token) : Decidable (t.Merges u) :=
  inferInstanceAs (Decidable (_ ∨ _))

/-- A string opens with an apostrophe and a quoted name does not. -/
theorem quote_of_read {cs rest : List Char} (h : read c cs = (t, rest)) :
    (t.kind = .string → c = '\x27') ∧ (t.kind = .quotedName → c ≠ '\x27') := by
  have hquoted := isQuoted_of_read h
  by_cases hquote : isQuote c = true
  · simp only [read, if_pos hquote] at h
    rcases Prod.mk.inj h with ⟨rfl, -⟩
    by_cases hc : c = '\x27'
    · simp [hc]
    · simp [hc]
  · rw [Bool.eq_false_iff.2 hquote] at hquoted
    constructor
    · intro hkind
      simp [isQuoted, hkind] at hquoted
    · intro hkind
      simp [isQuoted, hkind] at hquoted

/-- A mark is the one character that it was read from. -/
theorem of_read_mark {cs rest : List Char} (h : read c cs = (t, rest))
    (ht : t.kind ≠ .word ∧ t.kind ≠ .number ∧ t.kind ≠ .operator ∧ t.isQuoted = false) :
    punctuation? c = some t.kind ∧ t.text = [c] := by
  obtain ⟨hword, hnumber, hoperator, hquoted⟩ := ht
  rw [isQuoted_of_read h] at hquoted
  simp only [read, hquoted, Bool.false_eq_true, if_false] at h
  split at h
  · rw [← (Prod.mk.inj h).1] at hnumber
    exact absurd rfl hnumber
  · split at h
    · rw [← (Prod.mk.inj h).1] at hword
      exact absurd rfl hword
    · unfold readPunctuation at h
      split at h
      · rename_i kind hkind
        rcases Prod.mk.inj h with ⟨rfl, -⟩
        exact ⟨hkind, rfl⟩
      · -- all other punctuation is an operator
        split at h
        · split at h
          · rw [← (Prod.mk.inj h).1] at hoperator
            exact absurd rfl hoperator
          · rw [← (Prod.mk.inj h).1] at hoperator
            exact absurd rfl hoperator
        · rw [← (Prod.mk.inj h).1] at hoperator
          exact absurd rfl hoperator

/-- What a name or a star starts with. -/
theorem head_of_read {cs rest : List Char} (h : read c cs = (t, rest))
    (ht : t.isName = true ∨ t.kind = .star) :
    (t.kind = .word ∧ isWordChar c = true ∧ c.isDigit = false) ∨
      (t.kind = .quotedName ∧ isQuote c = true) ∨ (t.kind = .star ∧ c = '*') := by
  have hname : t.kind = .word ∨ t.kind = .quotedName ∨ t.kind = .star := by
    simpa [isName, or_assoc] using ht
  rcases hname with hkind | hkind | hkind
  · obtain ⟨hdigit, hword, -⟩ := of_read_word hkind h
    rcases text_of_read h with ⟨tail, htext, -⟩
    exact Or.inl ⟨hkind, hword c (by simp [htext]), hdigit⟩
  · have hquoted := isQuoted_of_read h
    refine Or.inr (Or.inl ⟨hkind, ?_⟩)
    rw [← hquoted]
    simp [isQuoted, hkind]
  · refine Or.inr (Or.inr ⟨hkind, ?_⟩)
    have hmark := (of_read_mark h (by simp [hkind, isQuoted])).1
    rw [hkind] at hmark
    unfold punctuation? at hmark
    split at hmark <;> simp_all

/-- The second characters of operators. -/
theorem second_of_isOperatorPair {a c : Char} (h : isOperatorPair a c = true) :
    c ∈ ['=', '>', '|', ':'] := by
  simp only [isOperatorPair, List.contains_eq_mem, List.mem_cons, List.not_mem_nil, or_false,
    decide_eq_true_eq, Prod.mk.injEq] at h
  rcases h with ⟨-, rfl⟩ | ⟨-, rfl⟩ | ⟨-, rfl⟩ | ⟨-, rfl⟩ | ⟨-, rfl⟩ | ⟨-, rfl⟩ <;> decide

/-- A name or a star starts with no digit, no point and no second character of an operator. -/
theorem plain_of_head (h : isWordChar c = true ∧ c.isDigit = false ∨ isQuote c = true ∨ c = '*') :
    c.isDigit = false ∧ c ≠ '.' ∧ ∀ a, isOperatorPair a c = false := by
  have hmarks : ∀ d ∈ ['.', '=', '>', '|', ':'],
      isWordChar d = false ∧ isQuote d = false ∧ d ≠ '*' := by decide
  have hmark : c ∉ ['.', '=', '>', '|', ':'] := by
    intro hmem
    obtain ⟨hword, hquote, hstar⟩ := hmarks c hmem
    rcases h with ⟨h, -⟩ | h | h
    · rw [hword] at h
      cases h
    · rw [hquote] at h
      cases h
    · exact hstar h
  have hdigit : c.isDigit = false := by
    rcases h with ⟨-, h⟩ | h | rfl
    · exact h
    · simp only [isQuote, Bool.or_eq_true, beq_iff_eq] at h
      rcases h with (rfl | rfl) | rfl <;> decide
    · decide
  refine ⟨hdigit, ?_, fun a => ?_⟩
  · rintro rfl
    exact hmark List.mem_cons_self
  · apply Bool.eq_false_iff.2
    intro hpair
    exact hmark (List.mem_cons_of_mem _ (second_of_isOperatorPair hpair))

/-- A token stops in front of a name or a star unless the two become one. -/
theorem stops_append_iff {b : Char} {bs cs rest : List Char} {u : Token}
    (ht : read b bs = (t, [])) (hu : read c cs = (u, rest))
    (hnext : u.isName = true ∨ u.kind = .star) (v : List Char) :
    t.Stops (u.text ++ v) ↔ ¬ t.Merges u := by
  obtain ⟨tail, htext, -⟩ := text_of_read hu
  obtain ⟨tail', htext', -⟩ := text_of_read ht
  have hhead := head_of_read hu hnext
  obtain ⟨hdigit, hpoint, hpair⟩ := plain_of_head (c := c) (by
    rcases hhead with ⟨-, h⟩ | ⟨-, h⟩ | ⟨-, h⟩
    · exact Or.inl h
    · exact Or.inr (Or.inl h)
    · exact Or.inr (Or.inr h))
  rw [Stops, Merges, htext, htext', List.cons_append]
  cases hkind : t.kind with
  | word =>
    have hword : isWordChar c = true ↔ u.kind = .word := by
      rcases hhead with ⟨hk, h, -⟩ | ⟨hk, h⟩ | ⟨hk, rfl⟩
      · simp [hk, h]
      · cases hw : isWordChar c with
        | false => simp [hk]
        | true =>
          rw [isQuote_of_isWordChar hw] at h
          cases h
      · simp only [hk, reduceCtorEq, iff_false]
        decide
    simp [← hword]
  | quotedName =>
    have hquoted : c = b → u.kind = .quotedName := by
      rintro rfl
      have hquote : isQuote c = true := by
        rw [← isQuoted_of_read ht]
        simp [isQuoted, hkind]
      rcases hhead with ⟨-, h, -⟩ | ⟨hk, -⟩ | ⟨-, rfl⟩
      · rw [isQuote_of_isWordChar h] at hquote
        cases hquote
      · exact hk
      · cases hquote
    simp only [List.head?_cons, ne_eq, Option.some.injEq, reduceCtorEq, false_and, true_and,
      false_or, not_and]
    exact ⟨fun h _ hb => h hb.symm, fun h hc => h (hquoted hc) hc.symm⟩
  | string =>
    have hb : b = '\x27' := (quote_of_read ht).1 hkind
    have hc : c ≠ b := by
      rintro rfl
      rcases hhead with ⟨-, h, -⟩ | ⟨hk, -⟩ | ⟨-, rfl⟩
      · rw [hb] at h
        cases h
      · exact (quote_of_read hu).2 hk hb
      · cases hb
    simp [hc]
  | number => simp [hdigit, EndsWhole, hpoint]
  | operator => simp [hpair]
  | leftParen => simp
  | rightParen => simp
  | comma => simp
  | semicolon => simp
  | dot => simp
  | star => simp

end Token

namespace Lexeme

variable {l : Lexeme} {w : List Char} {ls ms : List Lexeme}

/-! ## Lexemes one behind the other -/

/-- A lexeme is read in front of a text exactly when it is one by itself and its token stops there,
closed unless the text is empty. -/
theorem next?_source_append_iff : next? (l.source ++ w) = some (l, w) ↔
    next? l.source = some (l, []) ∧ (w ≠ [] → l.token.Terminated) ∧ l.token.Stops w := by
  constructor
  · intro h
    have halone : next? l.source = some (l, []) := next?_front (v := w) h
    rcases next?_eq_some h with ⟨c, tail, -, -, -, hread⟩
    exact ⟨halone, Token.terminated_of_read hread, Token.stops_of_read hread⟩
  · rintro ⟨halone, hterminated, hstops⟩
    by_cases hw : w = []
    · rw [hw, List.append_nil]
      exact halone
    · rcases next?_eq_some halone with ⟨c, tail, hsource, hgap, hc, hread⟩
      rw [hsource, List.append_assoc, List.cons_append, next?_gap_append hgap hc,
        Token.read_of_stops hread (hterminated hw) hstops]

/-- Lexemes are read back when the first is read in front of the others and these are read back. -/
theorem reads_cons_iff : Reads (sourceAll (l :: ls)) (l :: ls) [] ↔
    next? (l.source ++ sourceAll ls) = some (l, sourceAll ls) ∧ Reads (sourceAll ls) ls [] := by
  rw [sourceAll_cons]
  constructor
  · intro h
    cases h with
    | @next _ mid _ _ _ hl hls =>
      have hmid : mid = sourceAll ls := by
        rw [← hls.source, List.append_nil]
        rfl
      rw [hmid] at hl hls
      exact ⟨hl, hls⟩
  · rintro ⟨hl, hls⟩
    exact .next hl hls

/-- Where the tokens of lexemes are read back, the lexemes are, with their gaps. -/
theorem reads_of_map_token_eq (hgap : ∀ l ∈ ls, ∀ c ∈ l.gap, Text.isBlank c = true)
    (htext : ∀ l ∈ ls, ∃ c cs, l.token.text = c :: cs ∧ Text.isBlank c = false)
    (h : (ofText (sourceAll ls)).map token = ls.map token) : Reads (sourceAll ls) ls [] := by
  induction ls with
  | nil => exact .done
  | cons l ls ih =>
    rcases htext l List.mem_cons_self with ⟨c, cs, hl, hc⟩
    have hsource : sourceAll (l :: ls) = l.gap ++ c :: (cs ++ sourceAll ls) := by
      rw [sourceAll_cons, source, hl, List.append_assoc, List.cons_append]
    have hnext : next? (l.gap ++ c :: (cs ++ sourceAll ls)) =
        some (⟨l.gap, (Token.read c (cs ++ sourceAll ls)).1⟩,
          (Token.read c (cs ++ sourceAll ls)).2) :=
      next?_gap_append (hgap l List.mem_cons_self) hc
    rw [← hsource] at hnext
    rw [ofText_eq_cons hnext, List.map_cons, List.map_cons] at h
    obtain ⟨htoken, htail⟩ := List.cons.inj h
    -- the token takes as much of the text as it is long
    have hread : Token.read c (cs ++ sourceAll ls) = (l.token, sourceAll ls) := by
      have happ := Token.read_append c (cs ++ sourceAll ls)
      have hfirst : (Token.read c (cs ++ sourceAll ls)).1 = l.token := htoken
      rw [hfirst, hl, List.cons_append, List.cons.injEq] at happ
      exact Prod.ext hfirst (List.append_cancel_left happ.2)
    rw [hread] at hnext htail
    apply reads_cons_iff.2
    refine ⟨hnext, ih (fun m hm => hgap m ?_) (fun m hm => htext m ?_) htail⟩
    · exact List.mem_cons_of_mem l hm
    · exact List.mem_cons_of_mem l hm

end Lexeme

end SelectAlgebra
