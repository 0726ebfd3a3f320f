import SelectAlgebra.Proofs.Statement.Depth
import SelectAlgebra.Proofs.Token.Legible

/-!
# Editing what is quoted or enclosed

An edit of a text exchanges what stands between the quotes of a closed token, or between two
parentheses that belong together.  The lexemes in front of the edit and behind it stay, and the
token or the pair of parentheses stays one.

Main results:

- Theorem `Reads.exchange_rest`: lexemes are read in front of exchanged text, which is stripped on
  its own.
- Theorem `Edit.exists_lexemes`: the lexemes of an edited text.
-/

namespace SelectAlgebra.Lexeme

open Comment

/-- Exchanging what one token or one pair of parentheses holds, which is `count` lexemes of the
text from place `first` on. -/
inductive Edit (cs : List Char) : Nat → Nat → List Char → Prop
  /-- What a closed quoted token holds becomes any text, with every quote in it written twice. -/
  | quoted {ls : List Lexeme} {l : Lexeme} {quote : Char} {inside tail : List Char}
      (inside' : List Char) : Reads cs (ls ++ [l]) tail → isQuote quote = true →
      l.token.text = Token.inQuotes quote inside →
      Edit cs ls.length 1 (sourceAll ls ++ (l.gap ++ (Token.inQuotes quote inside' ++ tail)))
  /-- What two parentheses enclose becomes any closed text whose parentheses are balanced. -/
  | enclosed {ls inner : List Lexeme} {left right : Lexeme} {inside' tail : List Char} :
      Reads cs (ls ++ left :: (inner ++ [right])) tail → left.token.kind = .leftParen →
      right.token.kind = .rightParen → Balanced inner → Closed inside' →
      Balanced (ofText (strip inside')) →
      Edit cs ls.length (inner.length + 2)
        (sourceAll ls ++ (left.source ++ (inside' ++ (right.token.text ++ tail))))

/-- Two quoted tokens of one kind, or two pairs of parentheses around balanced lexemes. -/
inductive Alike : List Lexeme → List Lexeme → Prop
  | quoted {l l' : Lexeme} : l.token.kind = .string ∨ l.token.kind = .quotedName →
      l'.token.kind = l.token.kind → Alike [l] [l']
  | enclosed {left right left' right' : Lexeme} {inner inner' : List Lexeme} :
      left.token.kind = .leftParen → left'.token.kind = .leftParen →
      right.token.kind = .rightParen → right'.token.kind = .rightParen →
      Balanced inner → Balanced inner' →
      Alike (left :: (inner ++ [right])) (left' :: (inner' ++ [right']))

/-! ## Exchanging the rest of a text -/

variable {cs gap tail : List Char} {ls : List Lexeme} {l : Lexeme}

/-- In front of a character that is neither blank nor a point, lexemes are read whatever follows
that character, and what follows them is stripped on its own. -/
theorem Reads.exchange_rest {x : Char} {v : List Char} (v' : List Char)
    (h : Reads cs ls (gap ++ x :: v)) (hs : strip cs = cs) (hx : x ≠ '.')
    (hgap : ∀ c ∈ gap, Text.isBlank c = true) :
    Reads (sourceAll ls ++ (gap ++ x :: v')) ls (gap ++ x :: v') ∧
      strip (sourceAll ls ++ (gap ++ x :: v')) = sourceAll ls ++ (gap ++ strip (x :: v')) := by
  have hcs : sourceAll ls ++ gap ++ x :: v = cs := by
    rw [List.append_assoc]
    exact h.source
  rw [← hcs] at h hs
  have hreads := h.exchange v' hx
  have hstrip := h.strip_exchange v' hx hs
  rw [List.append_assoc] at hreads hstrip
  refine ⟨hreads, ?_⟩
  rw [hstrip, (scan_gap (x :: v') hgap).1]
  rfl

/-! ## Quoted tokens -/

/-- A closed quoted token starts with its quote, and no quote of the kind follows it. -/
theorem next?_inQuotes {quote : Char} {inside : List Char} (h : next? cs = some (l, tail))
    (hquote : isQuote quote = true) (htext : l.token.text = Token.inQuotes quote inside) :
    ∃ v, cs = l.gap ++ quote :: v ∧ (∀ c ∈ l.gap, Text.isBlank c = true) ∧
      tail.head? ≠ some quote ∧
      l.token.kind = if quote = '\x27' then .string else .quotedName := by
  rcases next?_eq_some h with ⟨c, v, hcs, hgap, -, hread⟩
  rcases Token.text_of_read hread with ⟨t, ht, -⟩
  rcases List.cons.inj (ht.symm.trans htext) with ⟨rfl, -⟩
  simp only [Token.read, hquote, if_true] at hread
  rcases Prod.mk.inj hread with ⟨htoken, htail⟩
  refine ⟨v, hcs, hgap, ?_, by rw [← htoken]⟩
  rcases Token.quotedTail_shape c v with ⟨_, -, hhead⟩ | ⟨_, -, hnil⟩
  · rwa [htail] at hhead
  · rw [← htail, hnil]
    simp

/-- A quote is no blank. -/
theorem isBlank_of_isQuote {c : Char} (h : isQuote c = true) : Text.isBlank c = false := by
  cases hc : Text.isBlank c with
  | false => rfl
  | true =>
    rw [Token.isQuote_of_isBreak (isBreak_of_isBlank hc)] at h
    cases h

/-- A text in quotes is a token in front of a text that does not start with the quote. -/
theorem scan_inQuotes {quote : Char} (inside : List Char) (hquote : isQuote quote = true)
    (hhead : tail.head? ≠ some quote) (hgap : ∀ c ∈ gap, Text.isBlank c = true) :
    next? (gap ++ (Token.inQuotes quote inside ++ tail)) =
        some (⟨gap, ⟨if quote = '\x27' then .string else .quotedName,
          Token.inQuotes quote inside⟩⟩, tail) ∧
      strip (Token.inQuotes quote inside ++ tail) = Token.inQuotes quote inside ++ strip tail := by
  have hcons : Token.inQuotes quote inside ++ tail =
      quote :: (Token.double quote inside ++ quote :: tail) := by
    rw [Token.inQuotes, List.cons_append, List.append_assoc]
    rfl
  have hread := Token.read_inQuotes inside hquote hhead
  constructor
  · rw [hcons, next?_gap_append hgap (isBlank_of_isQuote hquote), hread]
  · rw [hcons, strip, stripFrom_code_cons (opensComment_of_isQuote _ hquote), if_pos hquote,
      (scan_quoted inside tail hquote).1]
    simp [Token.inQuotes]

/-! ## Parentheses -/

/-- A parenthesis is a token of one character. -/
theorem read_of_paren {c : Char} {rest : List Char} {t : Token} (h : Token.read c cs = (t, rest))
    (ht : t.kind = .leftParen ∨ t.kind = .rightParen) :
    Token.punctuation? c = some t.kind ∧ t.text = [c] ∧ rest = cs := by
  have hnot : ∀ kind, kind = t.kind → kind = .leftParen ∨ kind = .rightParen := by
    rintro kind rfl
    exact ht
  unfold Token.read at h
  dsimp only at h
  split at h
  · rcases Prod.mk.inj h with ⟨rfl, -⟩
    have := hnot _ rfl
    split at this
    · simp at this
    · simp at this
  · split at h
    · rcases Prod.mk.inj h with ⟨rfl, -⟩
      simp at ht
    · split at h
      · rcases Prod.mk.inj h with ⟨rfl, -⟩
        simp at ht
      · unfold Token.readPunctuation at h
        split at h
        · rename_i kind hkind
          rcases Prod.mk.inj h with ⟨rfl, rfl⟩
          exact ⟨hkind, rfl, rfl⟩
        · split at h
          · split at h
            · rcases Prod.mk.inj h with ⟨rfl, -⟩
              simp at ht
            · rcases Prod.mk.inj h with ⟨rfl, -⟩
              simp at ht
          · rcases Prod.mk.inj h with ⟨rfl, -⟩
            simp at ht

/-- The parentheses are the only characters that are read as such. -/
theorem punctuation?_eq_paren {c : Char} {kind : TokenKind} (h : Token.punctuation? c = some kind) :
    (kind = .leftParen → c = '(') ∧ (kind = .rightParen → c = ')') := by
  unfold Token.punctuation? at h
  split at h <;> cases h <;> simp

/-- A parenthesis stands behind its gap. -/
theorem next?_of_paren (h : next? cs = some (l, tail)) :
    (l.token.kind = .leftParen → cs = l.gap ++ '(' :: tail ∧ l.token.text = ['(']) ∧
      (l.token.kind = .rightParen → cs = l.gap ++ ')' :: tail ∧ l.token.text = [')']) := by
  rcases next?_eq_some h with ⟨c, v, hcs, -, -, hread⟩
  constructor
  · intro hl
    rcases read_of_paren hread (Or.inl hl) with ⟨hkind, htext, rfl⟩
    obtain rfl := (punctuation?_eq_paren hkind).1 hl
    exact ⟨hcs, htext⟩
  · intro hr
    rcases read_of_paren hread (Or.inr hr) with ⟨hkind, htext, rfl⟩
    obtain rfl := (punctuation?_eq_paren hkind).2 hr
    exact ⟨hcs, htext⟩

/-- Closed text in front of a closing parenthesis is stripped on its own, and its lexemes are read
in front of that parenthesis. -/
theorem exists_reads_enclosed {inside : List Char} (tail : List Char) (hclosed : Closed inside) :
    strip (inside ++ ')' :: tail) = strip inside ++ ')' :: strip tail ∧
      ∃ gap, next? (gap ++ ')' :: tail) = some (⟨gap, ⟨.rightParen, [')']⟩⟩, tail) ∧
        Reads (strip inside ++ ')' :: tail) (ofText (strip inside)) (gap ++ ')' :: tail) := by
  have hparen : ∀ cs, strip (')' :: cs) = ')' :: strip cs := by
    intro cs
    exact (scan_plain (w := [')']) cs (by decide)).1
  constructor
  · have hhead : ∀ c ∈ (')' :: tail).head?, c ≠ '-' ∧ c ≠ '*' := by
      rintro c ⟨⟩
      decide
    rw [strip, stripFrom_append hhead hclosed, ← strip, ← strip, hparen]
  · rcases Reads.of_ofText (strip inside) with ⟨gap, hgap, hreads⟩
    have hblank : Text.isBlank ')' = false := by decide
    have hbreak : Token.StartsWithBreak (')' :: tail) := by
      rintro c ⟨⟩
      decide
    refine ⟨gap, ?_, ?_⟩
    · rw [next?_gap_append hgap hblank]
      rfl
    · exact hreads.before_break hbreak (terminated_of_closed (strip_strip inside) hclosed.strip)

/-! ## Edited texts -/

/-- The lexemes of a text and of an edited text, which may hold comments where it was edited: they
agree but for two alike stretches. -/
structure SameOutside (cs cs' : List Char) (ls ms ms' rs : List Lexeme) : Prop where
  alike : Alike ms ms'
  ofText : Lexeme.ofText cs = ls ++ (ms ++ rs)
  ofText_strip : Lexeme.ofText (strip cs') = ls ++ (ms' ++ rs)
  /-- The lexemes in front are read before any comment is taken out. -/
  reads : ∃ rest, Reads cs' ls rest

/-- Behind a closed lexeme, a stripped text is stripped. -/
theorem Reads.strip_tail (h : Reads cs (ls ++ [l]) tail) (hs : strip cs = cs)
    (hl : l.token.Terminated) : strip tail = tail := by
  have hterm : ∀ m ∈ ls ++ [l], m.token.Terminated := by
    intro m hm
    rcases List.mem_append.1 hm with hm | hm
    · exact h.terminated_init m hm
    · rw [List.mem_singleton] at hm
      rw [hm]
      exact hl
  exact (h.strip_rest hterm hs).1

/-- The inside of a quoted token can be edited without a change outside it. -/
theorem exists_lexemes_quoted {quote : Char} {inside : List Char} (inside' : List Char)
    (h : Reads cs (ls ++ [l]) tail) (hs : strip cs = cs) (hquote : isQuote quote = true)
    (htext : l.token.text = Token.inQuotes quote inside) :
    ∃ l', SameOutside cs (sourceAll ls ++ (l.gap ++ (Token.inQuotes quote inside' ++ tail))) ls
      [l] [l'] (ofText tail) := by
  have hterm : l.token.Terminated := by
    intro q ds hds _
    rw [htext] at hds ⊢
    rcases List.cons.inj hds with ⟨rfl, -⟩
    exact ⟨inside, rfl⟩
  have htail := h.strip_tail hs hterm
  rcases h.split with ⟨mid, hls, hl⟩
  cases hl with
  | next hnext hdone =>
    cases hdone with
    | done =>
      rcases next?_inQuotes hnext hquote htext with ⟨v, rfl, hgap, hhead, hkind⟩
      have hpoint : quote ≠ '.' := by
        rintro rfl
        cases hquote
      rcases hls.exchange_rest (Token.double quote inside' ++ quote :: tail) hs hpoint hgap with
        ⟨hreads, hstrip⟩
      rcases scan_inQuotes inside' hquote hhead hgap with ⟨hnext', hkeep⟩
      have hcons : quote :: (Token.double quote inside' ++ quote :: tail) =
          Token.inQuotes quote inside' ++ tail := by
        rw [Token.inQuotes, List.cons_append, List.append_assoc]
        rfl
      rw [hcons] at hreads hstrip
      rw [hkeep, htail] at hstrip
      have hread' := (hreads.append (.next hnext' .done)).ofText
      rw [List.append_assoc, ← hstrip] at hread'
      exact ⟨_, {
        alike := .quoted (by rw [hkind]; split <;> simp) hkind.symm
        ofText := by rw [h.ofText, List.append_assoc]
        ofText_strip := hread'
        reads := ⟨_, hreads⟩ }⟩

/-- The inside of two parentheses can be edited without a change outside them. -/
theorem exists_lexemes_enclosed {inner : List Lexeme} {left right : Lexeme} {inside' : List Char}
    (h : Reads cs (ls ++ left :: (inner ++ [right])) tail) (hs : strip cs = cs)
    (hleft : left.token.kind = .leftParen) (hright : right.token.kind = .rightParen)
    (hinner : Balanced inner) (hclosed : Closed inside')
    (hinside : Balanced (ofText (strip inside'))) :
    ∃ ms', SameOutside cs
      (sourceAll ls ++ (left.source ++ (inside' ++ (right.token.text ++ tail)))) ls
      (left :: (inner ++ [right])) ms' (ofText tail) := by
  rcases h.split with ⟨mid, hls, hrest⟩
  cases hrest with
  | @next _ mid' _ _ _ hnext hrest =>
    rcases hrest.split with ⟨mid'', hmid, hlast⟩
    cases hlast with
    | next hnext' hdone =>
      cases hdone with
      | done =>
        rcases (next?_of_paren hnext).1 hleft with ⟨hmidEq, hleftText⟩
        rcases (next?_of_paren hnext').2 hright with ⟨-, hrightText⟩
        have hterm : right.token.Terminated := by
          intro q ds hds hq
          rw [hrightText] at hds
          rcases List.cons.inj hds with ⟨rfl, -⟩
          cases hq
        have htail : strip tail = tail := by
          rw [← List.cons_append, ← List.append_assoc] at h
          exact h.strip_tail hs hterm
        rcases next?_eq_some hnext with ⟨_, _, -, hgap, -, -⟩
        rw [hmidEq] at hls
        rcases exists_reads_enclosed tail hclosed with ⟨hstripInside, gap, hright', hinsideReads⟩
        rw [htail] at hstripInside
        rcases hls.exchange_rest (inside' ++ ')' :: tail) hs (by decide) hgap with
          ⟨hreads, hstrip⟩
        rcases hls.exchange_rest (strip inside' ++ ')' :: tail) hs (by decide) hgap with
          ⟨hreads', -⟩
        have hopen : strip ('(' :: (inside' ++ ')' :: tail)) =
            '(' :: (strip inside' ++ ')' :: tail) := by
          rw [← hstripInside]
          exact (scan_plain (w := ['(']) (inside' ++ ')' :: tail) (by decide)).1
        have hnextLeft : next? (left.gap ++ '(' :: (strip inside' ++ ')' :: tail)) =
            some (left, strip inside' ++ ')' :: tail) := by
          rw [next?_gap_append hgap (by decide)]
          have htoken : left.token = ⟨.leftParen, ['(']⟩ := by
            rw [← hleft, ← hleftText]
          have hread : Token.read '(' (strip inside' ++ ')' :: tail) =
              (left.token, strip inside' ++ ')' :: tail) := by
            rw [htoken]
            rfl
          rw [hread]
        have hread' := (hreads'.append (.next hnextLeft
          (hinsideReads.append (.next hright' .done)))).ofText
        have hcs' : left.source ++ (inside' ++ (right.token.text ++ tail)) =
            left.gap ++ '(' :: (inside' ++ ')' :: tail) := by
          rw [source, hleftText, hrightText, List.append_assoc]
          rfl
        rw [hopen] at hstrip
        rw [hcs']
        rw [List.append_assoc, ← hstrip] at hread'
        exact ⟨_, {
          alike := .enclosed hleft hleft hright rfl hinner hinside
          ofText := by rw [h.ofText, List.append_assoc]
          ofText_strip := hread'
          reads := ⟨_, hreads⟩ }⟩

/-- The lexemes of an edited text are those of the text but for alike stretches. -/
theorem Edit.exists_lexemes {first count : Nat} {cs' : List Char} (h : Edit cs first count cs')
    (hs : strip cs = cs) : ∃ ls ms ms' rs, ls.length = first ∧ ms.length = count ∧
      SameOutside cs cs' ls ms ms' rs := by
  cases h with
  | quoted inside' hreads hquote htext =>
    rcases exists_lexemes_quoted inside' hreads hs hquote htext with ⟨l', hl'⟩
    exact ⟨_, _, _, _, rfl, rfl, hl'⟩
  | enclosed hreads hleft hright hinner hclosed hinside =>
    rcases exists_lexemes_enclosed hreads hs hleft hright hinner hclosed hinside with ⟨ms', hms'⟩
    exact ⟨_, _, _, _, rfl, by simp, hms'⟩

end SelectAlgebra.Lexeme
