import SelectAlgebra.Comment

/-!
# What the comment scan is inside of

The scan that takes comments out of a text ends in some mode.  When it ends in code, the text is
closed: no quoted run and no comment is open behind it, so the text after it is scanned as if it
stood alone.

Main results:

- Theorem `stripFrom_append_of_seam`: what follows a closed text is stripped on its own.
- Theorem `strip_strip`: a stripped text holds no comment.
- Theorem `Closed.strip`: a closed text stays closed when its comments are taken out.
-/

namespace SelectAlgebra.Comment

/-- The text starts with a line comment or a block comment. -/
def opensComment : List Char → Bool
  | '-' :: '-' :: _ => true
  | '/' :: '*' :: _ => true
  | _ => false

/-- What the scan is inside of at the end of the text, when it starts inside of `mode`. -/
def endMode : Mode → List Char → Mode
  | m, [] => m
  | .code, '-' :: '-' :: cs => endMode .line cs
  | .code, '/' :: '*' :: cs => endMode .block cs
  | .code, c :: cs => endMode (if isQuote c then .quoted c else .code) cs
  | .quoted q, c :: cs => endMode (if c = q then .code else .quoted q) cs
  | .line, c :: cs => if c = '\n' then endMode .code cs else endMode .line cs
  | .block, '*' :: '/' :: cs => endMode .code cs
  | .block, _ :: cs => endMode .block cs

/-- No quoted run and no comment is open at the end of the text. -/
def Closed (cs : List Char) : Prop :=
  endMode .code cs = .code

instance (cs : List Char) : Decidable (Closed cs) :=
  inferInstanceAs (Decidable (_ = _))

/-! ## One character of code -/

/-- A character of code that opens no comment is kept. -/
theorem stripFrom_code_cons {c : Char} {cs : List Char} (h : opensComment (c :: cs) = false) :
    stripFrom .code (c :: cs) =
      c :: stripFrom (if isQuote c then .quoted c else .code) cs := by
  rw [stripFrom]
  · rintro ds rfl rfl
    exact absurd h (by simp [opensComment])
  · rintro ds rfl rfl
    exact absurd h (by simp [opensComment])

/-- Where no comment opens, the scan goes on behind the first character. -/
theorem endMode_code_cons {c : Char} {cs : List Char} (h : opensComment (c :: cs) = false) :
    endMode .code (c :: cs) = endMode (if isQuote c then .quoted c else .code) cs := by
  rw [endMode]
  · rintro ds rfl rfl
    exact absurd h (by simp [opensComment])
  · rintro ds rfl rfl
    exact absurd h (by simp [opensComment])

/-- Characters that are none of the two marks open no comment. -/
theorem opensComment_eq_false {c : Char} {cs : List Char}
    (h1 : ∀ ds, c = '-' → cs = '-' :: ds → False) (h2 : ∀ ds, c = '/' → cs = '*' :: ds → False) :
    opensComment (c :: cs) = false := by
  unfold opensComment
  split
  · rename_i h
    rcases List.cons.inj h with ⟨rfl, rfl⟩
    exact (h1 _ rfl rfl).elim
  · rename_i h
    rcases List.cons.inj h with ⟨rfl, rfl⟩
    exact (h2 _ rfl rfl).elim
  · rfl

/-- Whether a character opens a comment depends on the character behind it only. -/
theorem opensComment_of_head? {c : Char} {cs ds : List Char} (h : opensComment (c :: cs) = false)
    (hhead : ∀ d, ds.head? = some d → d = '-' ∨ d = '*' → cs.head? = some d) :
    opensComment (c :: ds) = false := by
  apply opensComment_eq_false
  · rintro es rfl rfl
    rcases List.head?_eq_some_iff.1 (hhead '-' rfl (Or.inl rfl)) with ⟨fs, rfl⟩
    exact absurd h (by simp [opensComment])
  · rintro es rfl rfl
    rcases List.head?_eq_some_iff.1 (hhead '*' rfl (Or.inr rfl)) with ⟨fs, rfl⟩
    exact absurd h (by simp [opensComment])

/-- A block comment that a text closes is not closed at the seam to the text behind it. -/
theorem not_closesBlock_append {c : Char} {cs b : List Char} (h : endMode .block cs = .code)
    (hc : ∀ ds, c = '*' → cs = '/' :: ds → False) :
    ∀ ds, c = '*' → cs ++ b = '/' :: ds → False := by
  rintro ds rfl hcs
  cases cs with
  | nil => cases h
  | cons e es => exact hc es rfl (by rw [(List.cons.inj hcs).1])

/-! ## Text behind a closed text -/

/-- The last character of `cs` and the first one of `b` do not open a comment together. -/
def Seam (cs b : List Char) : Prop :=
  ∀ c ∈ cs.getLast?, ∀ d ∈ b.head?, opensComment [c, d] = false

section Append

variable {m : Mode} {c : Char} {cs b : List Char}

/-- No comment opens across a seam in front of a text that goes on with no mark. -/
theorem seam_of_head? (hb : ∀ d ∈ b.head?, d ≠ '-' ∧ d ≠ '*') : Seam cs b := by
  intro c _ d hd
  apply opensComment_eq_false
  · rintro ds - hds
    exact (hb d hd).1 (List.cons.inj hds).1
  · rintro ds - hds
    exact (hb d hd).2 (List.cons.inj hds).1

/-- A seam stays one when the first character in front of it is taken away. -/
theorem Seam.tail (h : Seam (c :: cs) b) : Seam cs b := by
  intro d hd
  apply h
  cases cs with
  | nil => cases hd
  | cons e es => rwa [List.getLast?_cons_cons]

/-- No comment opens across a seam. -/
theorem opensComment_append (hseam : Seam (c :: cs) b)
    (h1 : ∀ ds, c = '-' → cs = '-' :: ds → False) (h2 : ∀ ds, c = '/' → cs = '*' :: ds → False) :
    opensComment (c :: (cs ++ b)) = false := by
  cases cs with
  | cons e es =>
    apply opensComment_of_head? (opensComment_eq_false h1 h2)
    intro d hd _
    exact hd
  | nil =>
    cases b with
    | nil => exact opensComment_eq_false h1 h2
    | cons d ds =>
      apply opensComment_of_head? (hseam c rfl d rfl)
      intro e he _
      exact he

/-- What follows a closed text is stripped on its own, unless a comment opens at the seam. -/
theorem stripFrom_append_of_seam (hseam : Seam cs b) (h : endMode m cs = .code) :
    stripFrom m (cs ++ b) = stripFrom m cs ++ stripFrom .code b := by
  fun_induction endMode m cs with
  | case1 m =>
    subst h
    rfl
  | case2 cs ih => exact ih hseam.tail.tail h
  | case3 cs ih => exact ih hseam.tail.tail h
  | case4 c cs h1 h2 ih =>
    rw [List.cons_append, stripFrom_code_cons (opensComment_append hseam h1 h2),
      ih hseam.tail h, stripFrom_code_cons (opensComment_eq_false h1 h2), List.cons_append]
  | case5 q c cs ih => simp only [stripFrom, List.cons_append, ih hseam.tail h]
  | case6 cs ih => simp only [stripFrom, List.cons_append, if_true, ih hseam.tail h]
  | case7 c cs hc ih => simp only [stripFrom, List.cons_append, if_neg hc, ih hseam.tail h]
  | case8 cs ih => simp only [stripFrom, List.cons_append, ih hseam.tail.tail h]
  | case9 c cs hc ih =>
    rw [List.cons_append, stripFrom, stripFrom]
    · exact ih hseam.tail h
    · exact hc
    · exact not_closesBlock_append h hc

/-- What follows a closed text is stripped on its own, unless it goes on with the first character
of a comment. -/
theorem stripFrom_append (hb : ∀ d ∈ b.head?, d ≠ '-' ∧ d ≠ '*') (h : endMode m cs = .code) :
    stripFrom m (cs ++ b) = stripFrom m cs ++ stripFrom .code b :=
  stripFrom_append_of_seam (seam_of_head? hb) h

end Append

/-! ## Stripped texts -/

/-- What the scan of the stripped text is inside of, when that of the text is inside of `m`:
outside quoted runs, all that is left is code. -/
def Mode.stripped : Mode → Mode
  | .quoted q => .quoted q
  | .code | .line | .block => .code

/-- The mode behind a character that may be a quote is the same without comments. -/
theorem stripped_ite_quote (p : Prop) [Decidable p] (q : Char) :
    (if p then Mode.quoted q else .code).stripped = if p then .quoted q else .code := by
  split <;> rfl

/-- The mode behind a character that may close a quote is the same without comments. -/
theorem stripped_ite_code (p : Prop) [Decidable p] (q : Char) :
    (if p then Mode.code else .quoted q).stripped = if p then .code else .quoted q := by
  split <;> rfl

/-- All that is left of a line comment starts with its newline. -/
theorem head?_stripFrom_line {cs : List Char} {d : Char}
    (h : (stripFrom .line cs).head? = some d) : d = '\n' := by
  induction cs with
  | nil => cases h
  | cons c cs ih =>
    rw [stripFrom] at h
    split at h
    · rename_i hc
      rw [hc] at h
      exact (Option.some.inj h).symm
    · exact ih h

/-- All that is left of a block comment starts with a space. -/
theorem head?_stripFrom_block {cs : List Char} {d : Char}
    (h : (stripFrom .block cs).head? = some d) : d = ' ' := by
  induction cs with
  | nil => exact (Option.some.inj h).symm
  | cons c cs ih =>
    by_cases hc : ∃ ds, c = '*' ∧ cs = '/' :: ds
    · rcases hc with ⟨ds, rfl, rfl⟩
      exact (Option.some.inj h).symm
    · rw [stripFrom] at h
      · exact ih h
      · exact fun ds h1 h2 => hc ⟨ds, h1, h2⟩

/-- A stripped text starts like the text, unless it starts with the blank of a comment. -/
theorem head?_of_head?_strip {cs : List Char} {d : Char} (h : (strip cs).head? = some d)
    (hne : d ≠ '\n' ∧ d ≠ ' ') : cs.head? = some d := by
  match cs, h with
  | [], h => cases h
  | c :: cs, h =>
    cases hopen : opensComment (c :: cs) with
    | false =>
      rw [strip, stripFrom_code_cons hopen] at h
      exact h
    | true =>
      unfold opensComment at hopen
      split at hopen
      · rename_i hcs
        rcases List.cons.inj hcs with ⟨rfl, rfl⟩
        exact absurd (head?_stripFrom_line h) hne.1
      · rename_i hcs
        rcases List.cons.inj hcs with ⟨rfl, rfl⟩
        exact absurd (head?_stripFrom_block h) hne.2
      · cases hopen

/-- Taking comments out opens no other one. -/
theorem opensComment_stripFrom {c : Char} {cs : List Char}
    (h1 : ∀ ds, c = '-' → cs = '-' :: ds → False) (h2 : ∀ ds, c = '/' → cs = '*' :: ds → False) :
    opensComment (c :: stripFrom (if isQuote c then .quoted c else .code) cs) = false := by
  cases hq : isQuote c with
  | true =>
    apply opensComment_eq_false
    · rintro ds rfl -
      cases hq
    · rintro ds rfl -
      cases hq
  | false =>
    apply opensComment_of_head? (opensComment_eq_false h1 h2)
    intro d hd hgoes
    apply head?_of_head?_strip hd
    rcases hgoes with rfl | rfl <;> decide

/-- Comments are taken out once. -/
theorem stripFrom_stripFrom (m : Mode) (cs : List Char) :
    stripFrom m.stripped (stripFrom m cs) = stripFrom m cs := by
  fun_induction stripFrom m cs with
  | case1 => rfl
  | case2 m hm => cases m <;> rfl
  | case3 cs ih => exact ih
  | case4 cs ih => exact ih
  | case5 c cs h1 h2 ih =>
    rw [stripped_ite_quote] at ih
    rw [Mode.stripped, stripFrom_code_cons (opensComment_stripFrom h1 h2), ih]
  | case6 q c cs ih =>
    rw [stripped_ite_code] at ih
    simp only [Mode.stripped, stripFrom, ih]
  | case7 cs ih =>
    rw [Mode.stripped, stripFrom_code_cons (opensComment_eq_false (by simp) (by simp))]
    exact congrArg _ ih
  | case8 c cs hc ih => exact ih
  | case9 cs ih =>
    rw [Mode.stripped, stripFrom_code_cons (opensComment_eq_false (by simp) (by simp))]
    exact congrArg _ ih
  | case10 c cs hc ih => exact ih

/-- A stripped text holds no comment. -/
theorem strip_strip (cs : List Char) : strip (strip cs) = strip cs :=
  stripFrom_stripFrom .code cs

/-- Taking comments out leaves where the scan ends. -/
theorem endMode_stripFrom (m : Mode) (cs : List Char) :
    endMode m.stripped (stripFrom m cs) = (endMode m cs).stripped := by
  fun_induction stripFrom m cs with
  | case1 => rfl
  | case2 m hm => cases m <;> rfl
  | case3 cs ih => exact ih
  | case4 cs ih => exact ih
  | case5 c cs h1 h2 ih =>
    rw [stripped_ite_quote] at ih
    rw [Mode.stripped, endMode_code_cons (opensComment_stripFrom h1 h2), ih,
      endMode_code_cons (opensComment_eq_false h1 h2)]
  | case6 q c cs ih =>
    rw [stripped_ite_code] at ih
    simp only [Mode.stripped, endMode, ih]
  | case7 cs ih =>
    rw [Mode.stripped, endMode_code_cons (opensComment_eq_false (by simp) (by simp))]
    exact ih
  | case8 c cs hc ih => rw [ih, endMode, if_neg hc]
  | case9 cs ih =>
    rw [Mode.stripped, endMode_code_cons (opensComment_eq_false (by simp) (by simp))]
    exact ih
  | case10 c cs hc ih =>
    rw [ih, endMode]
    exact hc

/-- A closed text stays closed when its comments are taken out. -/
theorem Closed.strip {cs : List Char} (h : Closed cs) : Closed (Comment.strip cs) := by
  have := endMode_stripFrom .code cs
  rw [h] at this
  exact this

end SelectAlgebra.Comment
