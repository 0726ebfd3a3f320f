import SelectAlgebra.Proofs.Text.Parts

/-!
# Blank runs as single spaces

Collapsing a text takes its words apart and puts them together again.  The same is done here
character by character, with one bit to tell whether blanks have come up since the last word, so
that what becomes of a text can be said for its parts one after the other.

Main results:

- Theorem `respace_append`: what becomes of two texts one behind the other.
- Theorem `collapse_eq_respace`: collapsing a text, character by character.
- Theorem `collapse_eq_self_iff`: which texts stay as they are.
-/

namespace SelectAlgebra.Text

/-! ## Character by character -/

/-- The text with each blank run as one space, without a run at its end.  When `blanks` have come up
in front of the text, a space goes in front of its first word. -/
def respace : Bool → List Char → List Char
  | _, [] => []
  | blanks, c :: cs =>
    if isBlank c then respace true cs
    else (if blanks then [' '] else []) ++ c :: respace false cs

/-- Blanks have come up since the last word of the text. -/
def endsBlank : Bool → List Char → Bool
  | blanks, [] => blanks
  | _, c :: cs => endsBlank (isBlank c) cs

variable {blanks : Bool} {c : Char} {cs ds : List Char}

@[simp]
theorem respace_nil (blanks : Bool) : respace blanks [] = [] :=
  rfl

/-- A blank is remembered and left out. -/
theorem respace_cons_of_blank (cs : List Char) (h : isBlank c = true) :
    respace blanks (c :: cs) = respace true cs := by
  rw [respace, if_pos h]

/-- Any other character stands behind one space if blanks have come up. -/
theorem respace_cons (cs : List Char) (h : isBlank c = false) :
    respace blanks (c :: cs) = (if blanks then [' '] else []) ++ c :: respace false cs := by
  rw [respace, h, if_neg Bool.false_ne_true]

/-- What becomes of two texts one behind the other. -/
theorem respace_append (blanks : Bool) (cs ds : List Char) :
    respace blanks (cs ++ ds) = respace blanks cs ++ respace (endsBlank blanks cs) ds := by
  induction cs generalizing blanks with
  | nil => rfl
  | cons c cs ih =>
    rw [List.cons_append, endsBlank]
    cases hc : isBlank c with
    | true => rw [respace_cons_of_blank _ hc, respace_cons_of_blank _ hc, ih]
    | false => rw [respace_cons _ hc, respace_cons _ hc, ih, List.append_assoc, List.cons_append]

/-- A text without blanks stays as it is. -/
theorem respace_of_no_blank (h : ∀ d ∈ cs, isBlank d = false) :
    respace false cs = cs ∧ endsBlank false cs = false := by
  induction cs with
  | nil => exact ⟨rfl, rfl⟩
  | cons c cs ih =>
    have hc : isBlank c = false := h c List.mem_cons_self
    obtain ⟨hspace, hends⟩ := ih fun d hd => h d (List.mem_cons_of_mem c hd)
    rw [respace_cons _ hc, hspace, endsBlank, hc, hends]
    exact ⟨rfl, rfl⟩

/-- Blanks alone leave nothing. -/
theorem respace_of_blank (blanks : Bool) (h : ∀ d ∈ cs, isBlank d = true) :
    respace blanks cs = [] := by
  induction cs generalizing blanks with
  | nil => rfl
  | cons c cs ih =>
    rw [respace_cons_of_blank _ (h c List.mem_cons_self)]
    exact ih true fun d hd => h d (List.mem_cons_of_mem c hd)

/-- Behind blanks, what is left of a text starts with a space. -/
theorem head?_respace_true : ∀ d ∈ (respace true cs).head?, d = ' ' := by
  induction cs with
  | nil => simp
  | cons c cs ih =>
    cases hc : isBlank c with
    | true =>
      rw [respace_cons_of_blank _ hc]
      exact ih
    | false =>
      rw [respace_cons _ hc]
      rintro d ⟨⟩
      rfl

/-- What is left of a text starts with a space or as the text does. -/
theorem head?_respace {d : Char} (h : d ∈ (respace false cs).head?) : d = ' ' ∨ d ∈ cs.head? := by
  cases cs with
  | nil => cases h
  | cons c cs =>
    cases hc : isBlank c with
    | true =>
      rw [respace_cons_of_blank _ hc] at h
      exact Or.inl (head?_respace_true d h)
    | false =>
      rw [respace_cons _ hc] at h
      exact Or.inr h

/-! ## Word by word -/

/-- Behind blanks, a space goes in front of each word; behind a word, the text may go on with the
word first. -/
theorem respace_eq_words (cs : List Char) :
    respace true cs = (words cs).flatMap (' ' :: ·) ∧
      respace false cs = cs.takeWhile (fun c => !isBlank c) ++
        (words (cs.dropWhile fun c => !isBlank c)).flatMap (' ' :: ·) := by
  induction cs with
  | nil => exact ⟨rfl, rfl⟩
  | cons c cs ih =>
    obtain ⟨hopen, hinside⟩ := ih
    cases hc : isBlank c with
    | true =>
      have hblank : ∀ d ∈ [c], isBlank d = true := by simpa
      have hwords : words (c :: cs) = words cs := words_blank_append cs hblank
      rw [respace_cons_of_blank _ hc, respace_cons_of_blank _ hc, hopen]
      simp [hc, hwords]
    | false =>
      have hword : ∀ d ∈ c :: cs.takeWhile (fun d => !isBlank d), isBlank d = false := by
        intro d hd
        rcases List.mem_cons.1 hd with rfl | hd
        · exact hc
        · simpa using List.all_eq_true.1 (List.all_takeWhile (l := cs)) d hd
      have htail : ∀ d ∈ (cs.dropWhile fun d => !isBlank d).head?, isBlank d = true := by
        intro d hd
        have hstop := List.head?_dropWhile_not (fun d => !isBlank d) cs
        rw [hd] at hstop
        simpa using hstop
      have hsplit : words (c :: cs) = (c :: cs.takeWhile fun d => !isBlank d) ::
          words (cs.dropWhile fun d => !isBlank d) := by
        rw [← words_append (List.cons_ne_nil c _) hword htail, List.cons_append,
          List.takeWhile_append_dropWhile]
      rw [respace_cons _ hc, respace_cons _ hc, hinside, hsplit]
      simp [hc]

/-- The words behind the first one each stand behind a space. -/
theorem intercalate_space_cons (w : List Char) (ws : List (List Char)) :
    [' '].intercalate (w :: ws) = w ++ ws.flatMap (' ' :: ·) := by
  induction ws generalizing w with
  | nil => simp
  | cons v ws ih =>
    rw [List.intercalate_cons_cons, ih, List.flatMap_cons, List.append_assoc]
    rfl

/-- Blanks at the start of a text collapse to nothing. -/
theorem collapse_blank_append (ds : List Char) (h : ∀ c ∈ cs, isBlank c = true) :
    collapse (cs ++ ds) = collapse ds := by
  rw [collapse, words_blank_append ds h, ← collapse]

/-- Collapsing a text that does not start with a blank, character by character. -/
theorem collapse_eq_respace (h : ∀ c ∈ cs.head?, isBlank c = false) :
    collapse cs = respace false cs := by
  cases cs with
  | nil => rfl
  | cons c cs =>
    have hc : isBlank c = false := h c rfl
    have hspaced := (respace_eq_words (c :: cs)).1
    rw [respace_cons _ hc] at hspaced
    rw [collapse, respace_cons _ hc]
    cases hwords : words (c :: cs) with
    | nil => exact absurd hwords (words_cons_ne_nil cs hc)
    | cons w ws =>
      rw [hwords, List.flatMap_cons] at hspaced
      rw [intercalate_space_cons]
      exact (List.cons.inj hspaced).2.symm

/-! ## Collapsed texts -/

/-- Every blank is a space that a character follows which is no blank. -/
def SingleSpaced (cs : List Char) : Prop :=
  ∀ before c after, cs = before ++ c :: after → isBlank c = true →
    c = ' ' ∧ ∃ d ∈ after.head?, isBlank d = false

/-- A text without a blank is spaced by single spaces. -/
theorem singleSpaced_of_no_blank (h : ∀ c ∈ cs, isBlank c = false) : SingleSpaced cs := by
  rintro before c after rfl hc
  rw [h c (by simp)] at hc
  cases hc

/-- A text is spaced by single spaces when a blank at its front is one. -/
theorem singleSpaced_cons_iff : SingleSpaced (c :: cs) ↔
    (isBlank c = true → c = ' ' ∧ ∃ d ∈ cs.head?, isBlank d = false) ∧ SingleSpaced cs := by
  constructor
  · intro h
    refine ⟨h [] c cs rfl, ?_⟩
    rintro before d after rfl
    exact h (c :: before) d after rfl
  · rintro ⟨hfirst, hrest⟩ before d after hsplit
    cases before with
    | nil =>
      obtain ⟨rfl, rfl⟩ := List.cons.inj hsplit
      exact hfirst
    | cons b before =>
      obtain ⟨rfl, hcs⟩ := List.cons.inj hsplit
      exact hrest before d after hcs

/-- One space at most is put in front of a text, and nothing else. -/
theorem length_respace_le (blanks : Bool) (cs : List Char) :
    (respace blanks cs).length ≤ cs.length + 1 ∧ (respace false cs).length ≤ cs.length := by
  induction cs generalizing blanks with
  | nil => simp
  | cons c cs ih =>
    cases hc : isBlank c with
    | true =>
      have hrest := (ih true).1
      simp only [respace_cons_of_blank _ hc, List.length_cons]
      omega
    | false =>
      have hrest := (ih true).2
      cases blanks <;> simp [respace_cons _ hc] <;> omega

/-- Which texts stay as they are, behind a word and behind blanks. -/
theorem respace_eq_self_iff (cs : List Char) : (respace false cs = cs ↔ SingleSpaced cs) ∧
    (respace true cs = ' ' :: cs ↔ SingleSpaced cs ∧ ∃ d ∈ cs.head?, isBlank d = false) := by
  induction cs with
  | nil => simp [SingleSpaced]
  | cons c cs ih =>
    obtain ⟨hinside, hopen⟩ := ih
    rw [singleSpaced_cons_iff]
    cases hc : isBlank c with
    | false =>
      rw [respace_cons _ hc, respace_cons _ hc]
      simp [hc, hinside]
    | true =>
      have hlong : respace true cs ≠ ' ' :: c :: cs := by
        intro heq
        have hlength := (length_respace_le true cs).1
        rw [heq, List.length_cons, List.length_cons] at hlength
        omega
      have hspace : respace true cs = c :: cs → c = ' ' := by
        intro heq
        exact head?_respace_true c (by rw [heq]; rfl)
      rw [respace_cons_of_blank _ hc, respace_cons_of_blank _ hc]
      constructor
      · constructor
        · intro heq
          obtain rfl := hspace heq
          obtain ⟨hsingle, hnext⟩ := hopen.1 heq
          exact ⟨fun _ => ⟨rfl, hnext⟩, hsingle⟩
        · rintro ⟨hfirst, hsingle⟩
          obtain ⟨rfl, hnext⟩ := hfirst rfl
          exact hopen.2 ⟨hsingle, hnext⟩
      · simp [hlong, hc]

/-- A text that does not start with a blank is collapsed when every blank in it is a space that a
character follows which is no blank. -/
theorem collapse_eq_self_iff (h : ∀ c ∈ cs.head?, isBlank c = false) :
    collapse cs = cs ↔ SingleSpaced cs := by
  rw [collapse_eq_respace h]
  exact (respace_eq_self_iff cs).1

end SelectAlgebra.Text
