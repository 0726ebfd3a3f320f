import SelectAlgebra.Proofs.Lists
import SelectAlgebra.Proofs.Token.Quoted

/-!
# Where a token ends

The end of a token depends on little of the text behind it: on one character, or on two when a
number might go on behind a point.  So a token stays the same when the text behind it is
exchanged from a later character on, and when a text that cannot go on with it is put behind.

Main results:

- Theorem `read_exchange`: the text from a character behind the token on may be exchanged.
- Theorem `read_before_break`: a text that starts with a break character leaves the token alone.
- Theorem `isJoined_of_read`: the characters of a token of several characters.
- Theorem `read_front`: the text behind the token may be cut off anywhere.
-/

namespace SelectAlgebra.Token

/-! ## Characters that end every token -/

/-- A character that goes on with no token in front of it: a blank, a comma, a semicolon or a
parenthesis. -/
def isBreak (c : Char) : Bool :=
  Text.isBlank c || c == ',' || c == ';' || c == '(' || c == ')'

/-- The text is empty or starts with a break character. -/
def StartsWithBreak (cs : List Char) : Prop :=
  ∀ c ∈ cs.head?, isBreak c = true

/-- The codes of the break characters. -/
def breakCodes : List Nat :=
  List.range' 0x09 5 ++ [0x20, 0x28, 0x29, 0x2C, 0x3B, 0x85, 0xA0, 0x1680] ++
    List.range' 0x2000 11 ++ [0x2028, 0x2029, 0x202F, 0x205F, 0x3000]

/-- The codes of the break characters are in the list of them. -/
theorem toNat_mem_breakCodes {c : Char} (h : isBreak c = true) : c.toNat ∈ breakCodes := by
  simp only [isBreak, Text.isBlank, Bool.or_eq_true, Bool.and_eq_true, decide_eq_true_eq,
    beq_iff_eq] at h
  simp only [breakCodes, List.mem_append, List.mem_range'_1, List.mem_cons, List.not_mem_nil,
    or_false]
  rcases h with (((h | rfl) | rfl) | rfl) | rfl
  · omega
  all_goals decide

/-- A break character stands in no word. -/
theorem isWordChar_of_isBreak {c : Char} (h : isBreak c = true) : isWordChar c = false := by
  have key : ∀ n ∈ breakCodes, isWordChar (Char.ofNat n) = false := by decide +kernel
  simpa using key _ (toNat_mem_breakCodes h)

/-- A character that stands in no word is no digit. -/
theorem isDigit_eq_false_of_isWordChar {c : Char} (h : isWordChar c = false) :
    c.isDigit = false := by
  cases hd : c.isDigit with
  | false => rfl
  | true => simp [isWordChar, Text.isAlphanumeric_of_isDigit hd] at h

theorem isQuote_of_isBreak {c : Char} (h : isBreak c = true) : isQuote c = false := by
  have key : ∀ n ∈ breakCodes, isQuote (Char.ofNat n) = false := by decide
  simpa using key _ (toNat_mem_breakCodes h)

/-- A break character ends no operator of two characters. -/
theorem isOperatorPair_of_isBreak (c : Char) {d : Char} (h : isBreak d = true) :
    isOperatorPair c d = false := by
  have key : ∀ n ∈ breakCodes, Char.ofNat n ≠ '=' ∧ Char.ofNat n ≠ '>' ∧ Char.ofNat n ≠ '|' ∧
      Char.ofNat n ≠ ':' := by decide
  have hd := key _ (toNat_mem_breakCodes h)
  rw [Char.ofNat_toNat] at hd
  simp [isOperatorPair, hd.1, hd.2.1, hd.2.2.1, hd.2.2.2]

/-! ## The head of a text -/

/-! ## Bare words -/

/-! ## Numbers -/

/-- What may stand behind the whole part of a number that has no fraction. -/
def EndsWhole (r : List Char) : Prop :=
  (∀ c ∈ r.head?, c.isDigit = false) ∧ ∀ d ds, r = '.' :: d :: ds → d.isDigit = false

/-- A number is made of digits, or of digits, a point and more digits, as many as there are. -/
theorem numberRun_eq_iff {cs s r : List Char} :
    numberRun cs = (s, r) ↔ cs = s ++ r ∧
      (((∀ c ∈ s, c.isDigit = true) ∧ EndsWhole r) ∨
        ∃ w f, s = w ++ '.' :: f ∧ (∀ c ∈ w, c.isDigit = true) ∧ f ≠ [] ∧
          (∀ c ∈ f, c.isDigit = true) ∧ ∀ c ∈ r.head?, c.isDigit = false) := by
  constructor
  · intro h
    have happ := numberRun_append cs
    rw [h] at happ
    refine ⟨happ.symm, ?_⟩
    obtain ⟨-, hwhole, hhead⟩ :=
      List.takeWhile_dropWhile_iff.1 (And.intro (rfl : cs.takeWhile Char.isDigit = _) rfl)
    unfold numberRun at h
    dsimp only at h
    split at h
    · rename_i d ds hrest
      split at h
      · rename_i hd
        obtain ⟨-, hfrac, hend⟩ :=
          List.takeWhile_dropWhile_iff.1 (And.intro (rfl : (d :: ds).takeWhile Char.isDigit = _) rfl)
        rcases Prod.mk.inj h with ⟨rfl, rfl⟩
        exact Or.inr ⟨_, _, rfl, hwhole, by simp [hd], hfrac, hend⟩
      · rename_i hd
        rcases Prod.mk.inj h with ⟨rfl, rfl⟩
        refine Or.inl ⟨hwhole, hhead, fun d' ds' h' => ?_⟩
        rw [hrest] at h'
        cases h'
        simpa using hd
    · rename_i hrest
      rcases Prod.mk.inj h with ⟨rfl, rfl⟩
      exact Or.inl ⟨hwhole, hhead, fun d ds h' => absurd h' (hrest d ds)⟩
  · rintro ⟨rfl, ⟨hs, hr, hpoint⟩ | ⟨w, f, rfl, hw, hf, hdigits, hr⟩⟩
    · rcases List.takeWhile_dropWhile_iff.2 ⟨rfl, hs, hr⟩ with ⟨h1, h2⟩
      unfold numberRun
      rw [h1, h2]
      dsimp only
      split
      · rw [if_neg (by simp [hpoint _ _ rfl])]
      · rfl
    · rcases List.exists_cons_of_ne_nil hf with ⟨d, ds, rfl⟩
      have hd : d.isDigit = true := hdigits d (by simp)
      obtain ⟨h1, h2⟩ := List.takeWhile_dropWhile_iff.2
        (⟨rfl, hw, by simp⟩ : w ++ '.' :: (d :: ds ++ r) = _ ∧ _ ∧ _)
      rcases List.takeWhile_dropWhile_iff.2 (⟨rfl, hdigits, hr⟩ : d :: ds ++ r = _ ∧ _ ∧ _) with ⟨h3, h4⟩
      unfold numberRun
      rw [List.append_assoc, List.cons_append, h1, h2]
      simp only [List.cons_append] at h3 h4
      simp [hd, h3, h4]

/-! ## Exchanging the text behind a token -/

/-- The rest of a quoted text is read alike whatever stands further behind it. -/
theorem quotedTail_exchange {quote x : Char} {u s w v : List Char} (v' : List Char)
    (h : quotedTail quote (u ++ x :: v) = (s, w ++ x :: v)) :
    quotedTail quote (u ++ x :: v') = (s, w ++ x :: v') := by
  have happ := quotedTail_append quote (u ++ x :: v)
  have hshape := quotedTail_shape quote (u ++ x :: v)
  rw [h] at happ hshape
  dsimp only at happ hshape
  rcases hshape with ⟨inside, rfl, hhead⟩ | ⟨inside, -, hnil⟩
  · rw [List.head?_exchange w x v v'] at hhead
    rw [List.eq_append_of_append_cons happ]
    simpa using quotedTail_closed inside hhead
  · simp at hnil

/-- A run of characters of a class is read alike whatever stands further behind it. -/
theorem wordRun_exchange {p : Char → Bool} {x : Char} {u s w v : List Char} (v' : List Char)
    (hs : (u ++ x :: v).takeWhile p = s) (hr : (u ++ x :: v).dropWhile p = w ++ x :: v) :
    (u ++ x :: v').takeWhile p = s ∧ (u ++ x :: v').dropWhile p = w ++ x :: v' := by
  rcases List.takeWhile_dropWhile_iff.1 ⟨hs, hr⟩ with ⟨happ, hall, hhead⟩
  have hu : u = s ++ w := List.eq_append_of_append_cons happ.symm
  rw [List.head?_exchange w x v v'] at hhead
  exact List.takeWhile_dropWhile_iff.2 ⟨by simp [hu], hall, hhead⟩

/-- Whether a whole number ends is a matter of at most two characters. -/
theorem EndsWhole.exchange {x : Char} {w v : List Char} (v' : List Char) (hx : x ≠ '.')
    (h : EndsWhole (w ++ x :: v)) : EndsWhole (w ++ x :: v') := by
  refine ⟨List.head?_exchange w x v v' ▸ h.1, fun d ds hw => ?_⟩
  match w, hw with
  | [], hw => exact absurd (List.cons.inj hw).1 hx
  | [_], hw =>
    rcases List.cons.inj hw with ⟨rfl, hd⟩
    rcases List.cons.inj hd with ⟨rfl, -⟩
    exact h.2 _ _ rfl
  | _ :: _ :: w', hw =>
    rcases List.cons.inj hw with ⟨rfl, hd⟩
    rcases List.cons.inj hd with ⟨rfl, -⟩
    exact h.2 _ _ rfl

/-- A number is read alike whatever stands further behind it. -/
theorem numberRun_exchange {x : Char} {u s w v : List Char} (v' : List Char) (hx : x ≠ '.')
    (h : numberRun (u ++ x :: v) = (s, w ++ x :: v)) :
    numberRun (u ++ x :: v') = (s, w ++ x :: v') := by
  rw [numberRun_eq_iff] at h ⊢
  rcases h with ⟨happ, hshape⟩
  have hu : u = s ++ w := List.eq_append_of_append_cons happ.symm
  refine ⟨by simp [hu], ?_⟩
  rcases hshape with ⟨hs, hr⟩ | ⟨whole, f, rfl, hw, hf, hdigits, hr⟩
  · exact Or.inl ⟨hs, hr.exchange v' hx⟩
  · exact Or.inr ⟨whole, f, rfl, hw, hf, hdigits, List.head?_exchange w x v v' ▸ hr⟩

/-- Punctuation is read alike whatever stands further behind it. -/
theorem readPunctuation_exchange {c x : Char} {u w v : List Char} {t : Token} (v' : List Char)
    (h : readPunctuation c (u ++ x :: v) = (t, w ++ x :: v)) :
    readPunctuation c (u ++ x :: v') = (t, w ++ x :: v') := by
  unfold readPunctuation at h ⊢
  cases hp : punctuation? c with
  | some kind =>
    simp only [hp, Prod.mk.injEq] at h ⊢
    exact ⟨h.1, by rw [List.append_cancel_right h.2]⟩
  | none =>
    simp only [hp] at h ⊢
    cases u with
    | nil =>
      simp only [List.nil_append] at h ⊢
      split at h
      · have hlen := congrArg List.length (Prod.mk.inj h).2
        simp at hlen
        omega
      · rcases Prod.mk.inj h with ⟨rfl, hr⟩
        rename_i hpair
        have hw : [] = w := List.eq_append_of_append_cons (s := []) hr.symm
        simp [hpair, ← hw]
    | cons d u =>
      simp only [List.cons_append] at h ⊢
      split at h
      · rename_i hpair
        rcases Prod.mk.inj h with ⟨rfl, hr⟩
        simp [hpair, List.append_cancel_right hr]
      · rename_i hpair
        rcases Prod.mk.inj h with ⟨rfl, hr⟩
        have hw : d :: u = w := List.eq_append_of_append_cons (s := []) hr.symm
        simp [hpair, ← hw]

/-- The text from a character behind the token on may be exchanged for any other, unless the
character is a point. -/
theorem read_exchange {c x : Char} {u w v : List Char} {t : Token} (v' : List Char) (hx : x ≠ '.')
    (h : read c (u ++ x :: v) = (t, w ++ x :: v)) :
    read c (u ++ x :: v') = (t, w ++ x :: v') := by
  unfold read at h ⊢
  dsimp only at h ⊢
  split at h
  · rename_i hq
    rcases Prod.mk.inj h with ⟨rfl, hr⟩
    rw [if_pos hq, quotedTail_exchange v' (Prod.ext rfl hr)]
  · rename_i hq
    rw [if_neg hq]
    split at h
    · rename_i hd
      have hrun : numberRun (c :: u ++ x :: v) = ((numberRun (c :: u ++ x :: v)).1, w ++ x :: v) :=
        Prod.ext rfl (Prod.mk.inj h).2
      rw [if_pos hd, ← List.cons_append, numberRun_exchange v' hx hrun, ← (Prod.mk.inj h).1]
      rfl
    · rename_i hd
      rw [if_neg hd]
      split at h
      · rename_i hw
        rcases Prod.mk.inj h with ⟨rfl, hr⟩
        rcases wordRun_exchange v' rfl hr with ⟨h1, h2⟩
        rw [if_pos hw, h1, h2]
      · rename_i hw
        rw [if_neg hw]
        exact readPunctuation_exchange v' h

/-! ## Text put behind a token -/

/-- A text that starts with a break character goes on with no word. -/
theorem StartsWithBreak.isWordChar {b : List Char} (hb : StartsWithBreak b) :
    ∀ c ∈ b.head?, isWordChar c = false :=
  fun c hc => isWordChar_of_isBreak (hb c hc)

/-- A text that starts with a break character goes on with no number. -/
theorem StartsWithBreak.isDigit {b : List Char} (hb : StartsWithBreak b) :
    ∀ c ∈ b.head?, c.isDigit = false :=
  fun c hc => isDigit_eq_false_of_isWordChar (hb.isWordChar c hc)

/-- A text that starts with a break character starts with no other one. -/
theorem StartsWithBreak.head?_ne {b : List Char} (hb : StartsWithBreak b) {c : Char}
    (hc : isBreak c = false) : b.head? ≠ some c :=
  fun h => by simpa [hc] using hb c h

theorem isBreak_of_isQuote {c : Char} (h : isQuote c = true) : isBreak c = false := by
  cases hb : isBreak c with
  | false => rfl
  | true => rw [isQuote_of_isBreak hb] at h; cases h

/-- A break character behind a closed quoted text is not read with it. -/
theorem quotedTail_before_break {quote : Char} {u s w b : List Char} (hq : isQuote quote = true)
    (hb : StartsWithBreak b) (hw : w = [] → ∃ inside, s = double quote inside ++ [quote])
    (h : quotedTail quote u = (s, w)) : quotedTail quote (u ++ b) = (s, w ++ b) := by
  have happ := quotedTail_append quote u
  have hshape := quotedTail_shape quote u
  rw [h] at happ hshape
  dsimp only at happ hshape
  have hclosed : ∃ inside, s = double quote inside ++ [quote] := by
    rcases hshape with ⟨inside, hs, -⟩ | ⟨-, -, hnil⟩
    · exact ⟨inside, hs⟩
    · exact hw hnil
  have hne : w.head? ≠ some quote := by
    rcases hshape with ⟨-, -, hne⟩ | ⟨-, -, hnil⟩
    · exact hne
    · simp [hnil]
  rcases hclosed with ⟨inside, rfl⟩
  have hhead : (w ++ b).head? ≠ some quote := by
    cases w with
    | nil => exact hb.head?_ne (isBreak_of_isQuote hq)
    | cons d ds => simpa using hne
  rw [← happ]
  simpa using quotedTail_closed inside hhead

/-- A whole number ends in front of a break character. -/
theorem EndsWhole.append {w b : List Char} (hw : EndsWhole w) (hb : StartsWithBreak b) :
    EndsWhole (w ++ b) := by
  refine ⟨List.head?_append_all hw.1 hb.isDigit, fun d ds h => ?_⟩
  match w, h with
  | [], h => exact absurd (by simpa using congrArg List.head? h) (hb.head?_ne (by decide))
  | [_], h =>
    rcases List.cons.inj h with ⟨-, hd⟩
    exact hb.isDigit d (by simpa using congrArg List.head? hd)
  | _ :: _ :: w', h =>
    rcases List.cons.inj h with ⟨rfl, hd⟩
    rcases List.cons.inj hd with ⟨rfl, -⟩
    exact hw.2 _ _ rfl

/-- A break character behind a number is not read with it. -/
theorem numberRun_before_break {u s w b : List Char} (hb : StartsWithBreak b)
    (h : numberRun u = (s, w)) : numberRun (u ++ b) = (s, w ++ b) := by
  rw [numberRun_eq_iff] at h ⊢
  rcases h with ⟨rfl, hshape⟩
  refine ⟨List.append_assoc s w b, ?_⟩
  rcases hshape with ⟨hs, hr⟩ | ⟨whole, f, rfl, hw, hf, hdigits, hr⟩
  · exact Or.inl ⟨hs, hr.append hb⟩
  · exact Or.inr ⟨whole, f, rfl, hw, hf, hdigits, List.head?_append_all hr hb.isDigit⟩

/-- A break character behind punctuation is not read with it. -/
theorem readPunctuation_before_break {c : Char} {u w b : List Char} {t : Token}
    (hb : StartsWithBreak b) (h : readPunctuation c u = (t, w)) :
    readPunctuation c (u ++ b) = (t, w ++ b) := by
  unfold readPunctuation at h ⊢
  cases hp : punctuation? c with
  | some kind =>
    simp only [hp, Prod.mk.injEq] at h ⊢
    exact ⟨h.1, by rw [h.2]⟩
  | none =>
    simp only [hp] at h ⊢
    cases u with
    | nil =>
      rcases Prod.mk.inj h with ⟨rfl, rfl⟩
      cases b with
      | nil => rfl
      | cons d ds => simp [isOperatorPair_of_isBreak c (hb d rfl)]
    | cons d u =>
      simp only [List.cons_append] at h ⊢
      split at h <;>
      · rename_i hpair
        rcases Prod.mk.inj h with ⟨rfl, rfl⟩
        simp [hpair]

/-- A text that starts with a break character may be put behind a token, unless the token is a
quoted run that ends only because the text does. -/
theorem read_before_break {c : Char} {u w b : List Char} {t : Token} (hb : StartsWithBreak b)
    (ht : w = [] → t.Terminated) (h : read c u = (t, w)) : read c (u ++ b) = (t, w ++ b) := by
  unfold read at h ⊢
  dsimp only at h ⊢
  split at h
  · rename_i hq
    rcases Prod.mk.inj h with ⟨rfl, hr⟩
    have hw : w = [] → ∃ inside, (quotedTail c u).1 = double c inside ++ [c] := fun hnil => by
      rcases ht hnil c _ rfl hq with ⟨inside, hi⟩
      exact ⟨inside, (List.cons.inj hi).2⟩
    rw [if_pos hq, quotedTail_before_break hq hb hw (Prod.ext rfl hr)]
  · rename_i hq
    rw [if_neg hq]
    split at h
    · rename_i hd
      have hrun : numberRun (c :: u) = ((numberRun (c :: u)).1, w) :=
        Prod.ext rfl (Prod.mk.inj h).2
      rw [if_pos hd, ← List.cons_append, numberRun_before_break hb hrun, ← (Prod.mk.inj h).1]
    · rename_i hd
      rw [if_neg hd]
      split at h
      · rename_i hword
        rcases Prod.mk.inj h with ⟨rfl, rfl⟩
        obtain ⟨happ, hall, hhead⟩ :=
          List.takeWhile_dropWhile_iff.1 (And.intro (rfl : u.takeWhile isWordChar = _) rfl)
        obtain ⟨h1, h2⟩ := List.takeWhile_dropWhile_iff.2
          ⟨List.append_assoc _ _ b, hall, List.head?_append_all hhead hb.isWordChar⟩
        rw [if_pos hword]
        rw [← happ] at h1 h2
        rw [h1, h2]
      · rename_i hword
        rw [if_neg hword]
        exact readPunctuation_before_break hb h

/-! ## Texts that are one token -/

theorem isQuote_of_isWordChar {c : Char} (h : isWordChar c = true) : isQuote c = false := by
  cases hq : isQuote c with
  | false => rfl
  | true =>
    simp only [isQuote, Bool.or_eq_true, beq_iff_eq] at hq
    rcases hq with (rfl | rfl) | rfl <;> exact absurd h (by decide)

/-- A run of word characters that does not start with a digit is one bare word. -/
theorem read_word {c : Char} {cs rest : List Char} (hd : c.isDigit = false)
    (hw : ∀ d ∈ c :: cs, isWordChar d = true) (hrest : ∀ d ∈ rest.head?, isWordChar d = false) :
    read c (cs ++ rest) = (⟨.word, c :: cs⟩, rest) := by
  have hc : isWordChar c = true := hw c (by simp)
  obtain ⟨h1, h2⟩ := List.takeWhile_dropWhile_iff.2
    (⟨rfl, fun d hd => hw d (by simp [hd]), hrest⟩ : cs ++ rest = cs ++ rest ∧ _ ∧ _)
  simp [read, isQuote_of_isWordChar hc, hd, hc, h1, h2]

/-- A text in quotes is one token. -/
theorem read_inQuotes {quote : Char} (inside : List Char) {rest : List Char}
    (hq : isQuote quote = true) (hrest : rest.head? ≠ some quote) :
    read quote (double quote inside ++ quote :: rest) =
      (⟨if quote = '\x27' then .string else .quotedName, inQuotes quote inside⟩, rest) := by
  simp [read, hq, quotedTail_closed inside hrest, inQuotes]

/-! ## What a token looks like -/

/-- A token starts with the character it was read from. -/
theorem text_of_read {c : Char} {cs rest : List Char} {t : Token} (h : read c cs = (t, rest)) :
    ∃ tail, t.text = c :: tail ∧ cs = tail ++ rest := by
  have happ := read_append c cs
  have hne := read_text_ne_nil c cs
  rw [h] at happ hne
  rcases List.exists_cons_of_ne_nil hne with ⟨d, tail, htext⟩
  rw [htext] at happ
  rcases List.cons.inj happ with ⟨rfl, rfl⟩
  exact ⟨tail, htext, rfl⟩

/-- A character of which a token of several characters can be made, outside of quotes. -/
def isJoined (c : Char) : Bool :=
  isWordChar c || ['.', '<', '>', '=', '!', '|', ':'].contains c

/-- A character of a word can stand in a token of several characters. -/
theorem isJoined_of_isWordChar {c : Char} (h : isWordChar c = true) : isJoined c = true := by
  simp [isJoined, h]

theorem isJoined_of_isDigit {c : Char} (h : c.isDigit = true) : isJoined c = true :=
  isJoined_of_isWordChar (by simp [isWordChar, Text.isAlphanumeric_of_isDigit h])

/-- The characters of a number can stand in a token of several characters. -/
theorem isJoined_of_numberRun {cs s r : List Char} (hrun : numberRun cs = (s, r)) :
    ∀ c ∈ s, isJoined c = true := by
  intro c h
  obtain ⟨-, ⟨hall, -⟩ | ⟨w, f, rfl, hw, -, hf, -⟩⟩ := numberRun_eq_iff.1 hrun
  · exact isJoined_of_isDigit (hall c h)
  · rcases List.mem_append.1 h with h | h
    · exact isJoined_of_isDigit (hw c h)
    · rcases List.mem_cons.1 h with rfl | h
      · decide
      · exact isJoined_of_isDigit (hf c h)

/-- Both characters of an operator can stand in a token of several characters. -/
theorem isJoined_of_isOperatorPair {c d : Char} (h : isOperatorPair c d = true) :
    isJoined c = true ∧ isJoined d = true := by
  simp only [isOperatorPair, List.contains_eq_mem, List.mem_cons, List.not_mem_nil, or_false,
    decide_eq_true_eq, Prod.mk.injEq] at h
  rcases h with ⟨rfl, rfl⟩ | ⟨rfl, rfl⟩ | ⟨rfl, rfl⟩ | ⟨rfl, rfl⟩ | ⟨rfl, rfl⟩ | ⟨rfl, rfl⟩ <;>
    decide

/-- A token that opens with no quote is a single character or made of joined characters. -/
theorem isJoined_of_read {c : Char} {cs rest : List Char} {t : Token} (hq : isQuote c = false)
    (h : read c cs = (t, rest)) : t.text = [c] ∨ ∀ d ∈ t.text, isJoined d = true := by
  simp only [read, hq, Bool.false_eq_true, if_false] at h
  split at h
  · rcases Prod.mk.inj h with ⟨rfl, -⟩
    exact Or.inr (isJoined_of_numberRun (Prod.ext rfl rfl))
  · split at h
    · rename_i hw
      rcases Prod.mk.inj h with ⟨rfl, -⟩
      refine Or.inr fun d hd => isJoined_of_isWordChar ?_
      rcases List.mem_cons.1 hd with rfl | hd
      · exact hw
      · exact List.all_eq_true.1 (List.all_takeWhile (l := cs)) d hd
    · unfold readPunctuation at h
      split at h
      · exact Or.inl (by rw [← (Prod.mk.inj h).1])
      · split at h
        · split at h
          · rename_i hpair
            rcases isJoined_of_isOperatorPair hpair with ⟨hc, hd⟩
            exact Or.inr (by rw [← (Prod.mk.inj h).1]; simp [hc, hd])
          · exact Or.inl (by rw [← (Prod.mk.inj h).1])
        · exact Or.inl (by rw [← (Prod.mk.inj h).1])

/-- Only a token that does not open with a quote or that reaches to the end of the text can be
without a closing quote. -/
theorem terminated_of_read {c : Char} {cs rest : List Char} {t : Token}
    (h : read c cs = (t, rest)) (hrest : rest ≠ []) : t.Terminated := by
  rcases text_of_read h with ⟨tail, htext, -⟩
  intro quote ds hds hq
  rw [htext] at hds ⊢
  rcases List.cons.inj hds with ⟨rfl, rfl⟩
  simp only [read, if_pos hq] at h
  rcases Prod.mk.inj h with ⟨rfl, rfl⟩
  rcases quotedTail_shape c cs with ⟨inside, hinside, -⟩ | ⟨-, -, hnil⟩
  · exact ⟨inside, by rw [← (List.cons.inj htext).2, hinside]; rfl⟩
  · exact absurd hnil hrest

/-! ## Text cut off behind a token -/

/-- The rest of a quoted text is read alike when the text behind it is cut off. -/
theorem quotedTail_front {quote : Char} {u s w v : List Char}
    (h : quotedTail quote (u ++ v) = (s, w ++ v)) : quotedTail quote u = (s, w) := by
  have happ := quotedTail_append quote (u ++ v)
  have hshape := quotedTail_shape quote (u ++ v)
  rw [h] at happ hshape
  dsimp only at happ hshape
  have hu : u = s ++ w := by
    rw [← List.append_assoc] at happ
    exact (List.append_cancel_right happ).symm
  rcases hshape with ⟨inside, rfl, hhead⟩ | ⟨inside, rfl, hnil⟩
  · have hw : w.head? ≠ some quote := by
      intro hquote
      exact List.head?_front (P := fun c => some c ≠ some quote)
        (fun c hc heq => hhead (hc.trans heq)) quote hquote rfl
    rw [hu, List.append_assoc]
    exact quotedTail_closed inside hw
  · obtain rfl : w = [] := (List.append_eq_nil_iff.1 hnil).1
    rw [hu, List.append_nil]
    exact quotedTail_double quote inside

/-- A whole number ends where the text is cut off. -/
theorem EndsWhole.front {w v : List Char} (h : EndsWhole (w ++ v)) : EndsWhole w := by
  refine ⟨List.head?_front h.1, ?_⟩
  rintro d ds rfl
  exact h.2 d (ds ++ v) rfl

/-- A number is read alike when the text behind it is cut off. -/
theorem numberRun_front {u s w v : List Char} (h : numberRun (u ++ v) = (s, w ++ v)) :
    numberRun u = (s, w) := by
  rw [numberRun_eq_iff] at h ⊢
  rcases h with ⟨happ, hshape⟩
  rw [← List.append_assoc] at happ
  refine ⟨List.append_cancel_right happ, ?_⟩
  rcases hshape with ⟨hs, hr⟩ | ⟨whole, f, rfl, hw, hf, hdigits, hr⟩
  · exact Or.inl ⟨hs, hr.front⟩
  · exact Or.inr ⟨whole, f, rfl, hw, hf, hdigits, List.head?_front hr⟩

/-- Punctuation is read alike when the text behind it is cut off. -/
theorem readPunctuation_front {c : Char} {u w v : List Char} {t : Token}
    (h : readPunctuation c (u ++ v) = (t, w ++ v)) : readPunctuation c u = (t, w) := by
  unfold readPunctuation at h ⊢
  cases hp : punctuation? c with
  | some kind =>
    simp only [hp, Prod.mk.injEq] at h ⊢
    exact ⟨h.1, List.append_cancel_right h.2⟩
  | none =>
    simp only [hp] at h ⊢
    cases u with
    | nil =>
      cases v with
      | nil => simpa using h
      | cons d ds =>
        simp only [List.nil_append] at h
        split at h
        · have hlen := congrArg List.length (Prod.mk.inj h).2
          simp at hlen
          omega
        · rcases Prod.mk.inj h with ⟨rfl, hr⟩
          have hw : w = [] := List.append_left_eq_self.1 hr.symm
          rw [hw]
    | cons d u =>
      simp only [List.cons_append] at h ⊢
      split at h
      · rename_i hpair
        rcases Prod.mk.inj h with ⟨rfl, hr⟩
        simp [hpair, List.append_cancel_right hr]
      · rename_i hpair
        rcases Prod.mk.inj h with ⟨rfl, hr⟩
        have hw : d :: u = w := List.append_cancel_right (by simpa using hr)
        simp [hpair, ← hw]

/-- A token does not depend on where the text behind it is cut off. -/
theorem read_front {c : Char} {u w v : List Char} {t : Token}
    (h : read c (u ++ v) = (t, w ++ v)) : read c u = (t, w) := by
  unfold read at h ⊢
  dsimp only at h ⊢
  split at h
  · rename_i hq
    rcases Prod.mk.inj h with ⟨rfl, hr⟩
    rw [if_pos hq, quotedTail_front (Prod.ext rfl hr)]
  · rename_i hq
    rw [if_neg hq]
    split at h
    · rename_i hd
      have hrun : numberRun (c :: u ++ v) = ((numberRun (c :: u ++ v)).1, w ++ v) :=
        Prod.ext rfl (Prod.mk.inj h).2
      rw [if_pos hd, numberRun_front hrun, ← (Prod.mk.inj h).1]
      rfl
    · rename_i hd
      rw [if_neg hd]
      split at h
      · rename_i hword
        rcases Prod.mk.inj h with ⟨rfl, hr⟩
        obtain ⟨happ, hall, hhead⟩ :=
          List.takeWhile_dropWhile_iff.1 (And.intro (rfl : (u ++ v).takeWhile isWordChar = _) hr)
        rw [← List.append_assoc] at happ
        obtain ⟨h1, h2⟩ := List.takeWhile_dropWhile_iff.2
          ⟨List.append_cancel_right happ, hall, List.head?_front hhead⟩
        rw [if_pos hword, h1, h2]
      · rename_i hword
        rw [if_neg hword]
        exact readPunctuation_front h

/-- A token is read from its own text. -/
theorem read_alone {c : Char} {cs rest tail : List Char} {t : Token} (h : read c cs = (t, rest))
    (ht : t.text = c :: tail) : read c tail = (t, []) := by
  rcases text_of_read h with ⟨tail', htext, rfl⟩
  obtain rfl : tail' = tail := (List.cons.inj (htext.symm.trans ht)).2
  exact read_front (w := []) h

/-- The token is a string or a quoted name. -/
def isQuoted (t : Token) : Bool :=
  t.kind == .string || t.kind == .quotedName

/-- The quoted tokens are the strings and the quoted names. -/
theorem isQuoted_iff {t : Token} :
    t.isQuoted = true ↔ t.kind = .string ∨ t.kind = .quotedName := by
  simp [isQuoted]

/-- Punctuation is neither a bare word nor quoted. -/
theorem readPunctuation_kind (c : Char) (cs : List Char) :
    (readPunctuation c cs).1.kind ≠ .word ∧ (readPunctuation c cs).1.isQuoted = false := by
  unfold readPunctuation
  split
  · rename_i kind hkind
    unfold punctuation? at hkind
    split at hkind <;> cases hkind <;> simp [isQuoted]
  · split
    · split <;> simp [isQuoted]
    · simp [isQuoted]

/-- A token is a string or a quoted name exactly when it opens with a quote. -/
theorem isQuoted_of_read {c : Char} {cs rest : List Char} {t : Token}
    (h : read c cs = (t, rest)) : t.isQuoted = isQuote c := by
  unfold read at h
  dsimp only at h
  split at h
  · rename_i hq
    rw [← (Prod.mk.inj h).1, hq, isQuoted_iff]
    dsimp only
    split
    · exact Or.inl rfl
    · exact Or.inr rfl
  · rename_i hq
    rw [eq_false_of_ne_true hq]
    split at h
    · rw [← (Prod.mk.inj h).1]
      rfl
    · split at h
      · rw [← (Prod.mk.inj h).1]
        rfl
      · have := (readPunctuation_kind c cs).2
        rwa [h] at this

/-- A bare word is made of word characters, does not start with a digit, and goes on as long as it
can. -/
theorem of_read_word {c : Char} {cs rest : List Char} {t : Token} (ht : t.kind = .word)
    (h : read c cs = (t, rest)) : c.isDigit = false ∧ (∀ d ∈ t.text, isWordChar d = true) ∧
      ∀ d ∈ rest.head?, isWordChar d = false := by
  unfold read at h
  dsimp only at h
  split at h
  · rcases Prod.mk.inj h with ⟨rfl, -⟩
    split at ht <;> cases ht
  · split at h
    · rcases Prod.mk.inj h with ⟨rfl, -⟩
      cases ht
    · rename_i hd
      split at h
      · rename_i hw
        rcases Prod.mk.inj h with ⟨rfl, rfl⟩
        obtain ⟨-, hall, hhead⟩ :=
          List.takeWhile_dropWhile_iff.1 (And.intro (rfl : cs.takeWhile isWordChar = _) rfl)
        refine ⟨eq_false_of_ne_true hd, fun d hd' => ?_, hhead⟩
        rcases List.mem_cons.1 hd' with rfl | hd'
        · exact hw
        · exact hall d hd'
      · have := (readPunctuation_kind c cs).1
        rw [h] at this
        exact absurd ht this

end SelectAlgebra.Token
