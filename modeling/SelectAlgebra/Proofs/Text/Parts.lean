import SelectAlgebra.Proofs.Lists
import SelectAlgebra.Text

/-!
# Texts that tell their parts

A text made of parts tells where a part ends when a character stands there that the part cannot
hold.  So the entries of a list are told by their list, and the words of a text by the text with
its blanks collapsed.

Main results:

- Theorem `eq_of_run_append`: a run of characters with a property ends where the property does.
- Theorem `eq_of_intercalate`: entries are told by a list whose separator they do not hold.
- Theorem `words_collapse`: a text with its blanks collapsed has the same words.
-/

namespace SelectAlgebra.Text

/-! ## Parts with an end -/

variable {xs ys a b : List Char}

/-- A run of characters with a property ends where the property does. -/
theorem eq_of_run_append {p : Char → Bool} (hxs : ∀ c ∈ xs, p c = true)
    (hys : ∀ c ∈ ys, p c = true) (ha : ∀ c ∈ a.head?, p c = false)
    (hb : ∀ c ∈ b.head?, p c = false) (h : xs ++ a = ys ++ b) : xs = ys ∧ a = b := by
  have hleft := List.takeWhile_dropWhile_iff.2 ⟨rfl, hxs, ha⟩
  have hright := List.takeWhile_dropWhile_iff.2 ⟨h, hys, hb⟩
  exact ⟨hleft.1.symm.trans hright.1, hleft.2.symm.trans hright.2⟩

/-- A text without a character ends where the character follows. -/
theorem eq_of_append_cons {stop : Char} (hxs : stop ∉ xs) (hys : stop ∉ ys)
    (h : xs ++ stop :: a = ys ++ stop :: b) : xs = ys ∧ a = b := by
  have hne : ∀ {zs : List Char}, stop ∉ zs → ∀ c ∈ zs, (c != stop) = true := by
    rintro zs hzs c hc
    rw [bne_iff_ne]
    rintro rfl
    exact hzs hc
  rcases eq_of_run_append (hne hxs) (hne hys) (by simp) (by simp) h with ⟨heq, hrest⟩
  exact ⟨heq, (List.cons.inj hrest).2⟩

/-! ## Lists of entries -/

/-- A character of a list of entries stands in an entry or in a separator. -/
theorem mem_of_mem_intercalate {sep : List Char} {entries : List (List Char)} {c : Char}
    (h : c ∈ sep.intercalate entries) : c ∈ sep ∨ ∃ x ∈ entries, c ∈ x := by
  induction entries with
  | nil => simp at h
  | cons x entries ih =>
    cases entries with
    | nil => exact Or.inr ⟨x, by simp, by simpa using h⟩
    | cons y entries =>
      rw [List.intercalate_cons_cons, List.mem_append, List.mem_append] at h
      rcases h with (h | h) | h
      · exact Or.inr ⟨x, by simp, h⟩
      · exact Or.inl h
      · rcases ih h with h | ⟨z, hz, hc⟩
        · exact Or.inl h
        · exact Or.inr ⟨z, List.mem_cons_of_mem _ hz, hc⟩

/-- A list with two entries shows its separator. -/
theorem mem_intercalate_of_mem_separator {sep x y : List Char} {entries : List (List Char)}
    {c : Char} (h : c ∈ sep) : c ∈ sep.intercalate (x :: y :: entries) := by
  simp [List.intercalate_cons_cons, h]

/-- Entries are told by a list whose separator has a character that no entry has. -/
theorem eq_of_intercalate (front : List Char) (stop : Char) (back : List Char)
    {entries entries' : List (List Char)} (hfront : stop ∉ front) (hne : entries ≠ [])
    (hne' : entries' ≠ []) (hentries : ∀ x ∈ entries, stop ∉ x)
    (hentries' : ∀ x ∈ entries', stop ∉ x)
    (h : (front ++ stop :: back).intercalate entries =
      (front ++ stop :: back).intercalate entries') : entries = entries' := by
  have hstop : stop ∈ front ++ stop :: back := by simp
  induction entries generalizing entries' with
  | nil => exact absurd rfl hne
  | cons x xs ih =>
    rcases List.exists_cons_of_ne_nil hne' with ⟨y, ys, rfl⟩
    have hx : stop ∉ x := hentries x (by simp)
    have hy : stop ∉ y := hentries' y (by simp)
    cases xs with
    | nil =>
      rw [List.intercalate_singleton] at h
      cases ys with
      | nil => rw [h, List.intercalate_singleton]
      | cons w ys => exact absurd (h ▸ mem_intercalate_of_mem_separator hstop) hx
    | cons v xs =>
      cases ys with
      | nil =>
        rw [List.intercalate_singleton] at h
        exact absurd (h ▸ mem_intercalate_of_mem_separator hstop) hy
      | cons w ys =>
        simp only [List.intercalate_cons_cons, List.append_assoc, List.cons_append] at h
        rw [← List.append_assoc, ← List.append_assoc] at h
        rcases eq_of_append_cons (by simp [hx, hfront]) (by simp [hy, hfront]) h with
          ⟨hhead, htail⟩
        have hrest := ih (List.cons_ne_nil v xs) (List.cons_ne_nil w ys)
          (fun z hz => hentries z (List.mem_cons_of_mem _ hz))
          (fun z hz => hentries' z (List.mem_cons_of_mem _ hz)) (List.append_cancel_left htail)
        rw [List.append_cancel_right hhead, hrest]

/-! ## Words -/

/-- A word is not empty and holds no blank. -/
theorem mem_words {cs w : List Char} (h : w ∈ words cs) :
    w ≠ [] ∧ ∀ c ∈ w, isBlank c = false := by
  rw [words, List.mem_filter] at h
  exact ⟨by simpa using h.2, fun c hc => List.not_sep_of_mem_splitOnP h.1 hc⟩

/-- A character of a word is a character of the text. -/
theorem mem_of_mem_words {cs w : List Char} {c : Char} (hw : w ∈ words cs) (hc : c ∈ w) :
    c ∈ cs := by
  rw [words, List.mem_filter] at hw
  exact List.mem_of_mem_splitOnP hw.1 hc

/-- A text that starts with a character that is no blank has a word. -/
theorem words_cons_ne_nil {c : Char} (cs : List Char) (h : isBlank c = false) :
    words (c :: cs) ≠ [] := by
  rcases List.exists_cons_of_ne_nil (List.splitOnP_ne_nil isBlank cs) with ⟨v, vs, hs⟩
  rw [words, List.splitOnP_cons_eq_if_modifyHead, h, hs]
  simp

/-- A text without a blank is one word. -/
theorem words_of_no_blank {w : List Char} (hne : w ≠ [])
    (h : ∀ c ∈ w, isBlank c = false) : words w = [w] := by
  rw [words, List.splitOnP_eq_singleton h]
  simp [hne]

/-- A word ends where a blank follows. -/
theorem words_append_blank {w : List Char} {c : Char} (cs : List Char) (hne : w ≠ [])
    (h : ∀ d ∈ w, isBlank d = false) (hc : isBlank c = true) :
    words (w ++ c :: cs) = w :: words cs := by
  rw [words, List.splitOnP_append_cons_of_forall_mem h c hc]
  simp [hne, words]

/-- Blanks in front of a text do not change its words. -/
theorem words_blank_append {gap : List Char} (cs : List Char)
    (h : ∀ c ∈ gap, isBlank c = true) : words (gap ++ cs) = words cs := by
  induction gap with
  | nil => rfl
  | cons c gap ih =>
    have hc : isBlank c = true := h c (by simp)
    rw [List.cons_append, words, List.splitOnP_cons_eq_if_modifyHead, if_pos hc,
      List.filter_cons]
    exact ih fun d hd => h d (by simp [hd])

/-- A text in front of a blank or of nothing is one word when it holds no blank. -/
theorem words_append {w tail : List Char} (hne : w ≠ []) (h : ∀ d ∈ w, isBlank d = false)
    (htail : ∀ c ∈ tail.head?, isBlank c = true) : words (w ++ tail) = w :: words tail := by
  cases tail with
  | nil =>
    rw [List.append_nil, words_of_no_blank hne h]
    rfl
  | cons c cs =>
    have hc := htail c rfl
    have hblank : words ([c] ++ cs) = words cs := words_blank_append cs (by simpa)
    rw [words_append_blank cs hne h hc]
    exact congrArg _ hblank.symm

/-! ## Collapsed texts -/

/-- Words between single spaces are found again. -/
theorem words_intercalate {ws : List (List Char)}
    (h : ∀ w ∈ ws, w ≠ [] ∧ ∀ c ∈ w, isBlank c = false) : words ([' '].intercalate ws) = ws := by
  induction ws with
  | nil => rfl
  | cons w ws ih =>
    obtain ⟨hne, hblank⟩ := h w (by simp)
    have hrest := ih fun v hv => h v (List.mem_cons_of_mem _ hv)
    cases ws with
    | nil => rw [List.intercalate_singleton, words_of_no_blank hne hblank]
    | cons v ws =>
      rw [List.intercalate_cons_cons, List.append_assoc, List.singleton_append,
        words_append_blank _ hne hblank rfl, hrest]

/-- A text with its blanks collapsed has the same words. -/
theorem words_collapse (cs : List Char) : words (collapse cs) = words cs :=
  words_intercalate fun _ hw => mem_words hw

/-- Blanks are collapsed once. -/
theorem collapse_collapse (cs : List Char) : collapse (collapse cs) = collapse cs := by
  rw [collapse, words_collapse, ← collapse]

/-- A character of a collapsed text is a space, or a character of the text that is no blank. -/
theorem mem_of_mem_collapse {cs : List Char} {c : Char} (h : c ∈ collapse cs) :
    c = ' ' ∨ c ∈ cs ∧ isBlank c = false := by
  rcases mem_of_mem_intercalate h with h | ⟨w, hw, hc⟩
  · exact Or.inl (List.mem_singleton.1 h)
  · exact Or.inr ⟨mem_of_mem_words hw hc, (mem_words hw).2 c hc⟩

end SelectAlgebra.Text
