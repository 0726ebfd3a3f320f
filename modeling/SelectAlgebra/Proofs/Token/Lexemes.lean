import SelectAlgebra.Proofs.Token.Reading

/-!
# Reading a text part by part

The lexemes of a text may be read up to some place and then from there on.  Up to a character
behind them they do not depend on what follows, and a text that starts with a break character may
be put behind them.

Main results:

- Theorem `Reads.ofText`: the lexemes of a text are those read so far and those of the rest.
- Theorem `Reads.exchange`: the text from a character behind the lexemes on may be exchanged.
- Theorem `Reads.front`: the text behind the lexemes may be cut off anywhere.
- Theorem `Reads.before_break`: a text that starts with a break character leaves them alone.
-/

namespace SelectAlgebra.Lexeme

/-- Reading `cs` gives the lexemes and leaves the last text. -/
inductive Reads : List Char → List Lexeme → List Char → Prop
  | done {cs : List Char} : Reads cs [] cs
  | next {cs mid rest : List Char} {l : Lexeme} {ls : List Lexeme} :
      next? cs = some (l, mid) → Reads mid ls rest → Reads cs (l :: ls) rest

/-! ## One lexeme -/

/-- A text has a first lexeme when a character that is not blank follows its gap. -/
theorem next?_gap_append {gap : List Char} {c : Char} {cs : List Char}
    (hgap : ∀ d ∈ gap, Text.isBlank d = true) (hc : Text.isBlank c = false) :
    next? (gap ++ c :: cs) = some (⟨gap, (Token.read c cs).1⟩, (Token.read c cs).2) := by
  obtain ⟨h1, h2⟩ := List.takeWhile_dropWhile_iff.2
    (⟨rfl, hgap, by simpa using hc⟩ : gap ++ c :: cs = gap ++ c :: cs ∧ _ ∧ _)
  unfold next?
  rw [h1, h2]

/-- A character that is no blank starts the next token. -/
theorem next?_cons {c : Char} (cs : List Char) (hc : Text.isBlank c = false) :
    next? (c :: cs) = some (⟨[], (Token.read c cs).1⟩, (Token.read c cs).2) :=
  next?_gap_append (by simp : ∀ d ∈ [], Text.isBlank d = true) hc

/-- A text without a token is blank. -/
theorem next?_eq_none_iff {cs : List Char} :
    next? cs = none ↔ ∀ c ∈ cs, Text.isBlank c = true := by
  constructor
  · intro h
    unfold next? at h
    split at h
    · rename_i hdrop
      obtain ⟨happ, hall, -⟩ :=
        List.takeWhile_dropWhile_iff.1 (And.intro (rfl : cs.takeWhile Text.isBlank = _) hdrop)
      rw [List.append_nil] at happ
      intro c hc
      rw [happ] at hc
      exact hall c hc
    · cases h
  · intro hall
    have hdrop := (List.takeWhile_dropWhile_iff.2
      (⟨(List.append_nil cs).symm, hall, by simp⟩ : cs = cs ++ [] ∧ _ ∧ _)).2
    simp [next?, hdrop]

/-- The first lexeme takes its gap and its token from the front of the text. -/
theorem next?_eq_some {cs rest : List Char} {l : Lexeme} (h : next? cs = some (l, rest)) :
    ∃ c tail, cs = l.gap ++ c :: tail ∧ (∀ d ∈ l.gap, Text.isBlank d = true) ∧
      Text.isBlank c = false ∧ Token.read c tail = (l.token, rest) := by
  unfold next? at h
  split at h
  · cases h
  · rename_i c tail hdrop
    obtain ⟨happ, hgap, hhead⟩ :=
      List.takeWhile_dropWhile_iff.1 (And.intro (rfl : cs.takeWhile Text.isBlank = _) hdrop)
    simp only [Option.some.injEq, Prod.mk.injEq] at h
    rcases h with ⟨rfl, rfl⟩
    exact ⟨c, tail, happ, hgap, hhead c rfl, rfl⟩

/-- The token of a lexeme starts with a character that is no blank. -/
theorem text_of_next? {cs rest : List Char} {l : Lexeme} (h : next? cs = some (l, rest)) :
    ∃ c tail, l.token.text = c :: tail ∧ Text.isBlank c = false := by
  rcases next?_eq_some h with ⟨c, tail, -, -, hc, hread⟩
  rcases Token.text_of_read hread with ⟨t, htext, -⟩
  exact ⟨c, t, htext, hc⟩

/-- The first lexeme and the text after it make up the text. -/
theorem source_append {cs rest : List Char} {l : Lexeme} (h : next? cs = some (l, rest)) :
    l.source ++ rest = cs := by
  rcases next?_eq_some h with ⟨c, tail, rfl, -, -, hread⟩
  have := Token.read_append c tail
  rw [hread] at this
  rw [source, List.append_assoc, this]

/-- The next lexeme is read alike whatever stands further behind it. -/
theorem next?_exchange {x : Char} {u w v : List Char} {l : Lexeme} (v' : List Char) (hx : x ≠ '.')
    (h : next? (u ++ x :: v) = some (l, w ++ x :: v)) :
    next? (u ++ x :: v') = some (l, w ++ x :: v') := by
  have hu := List.eq_append_of_append_cons (source_append h)
  rcases next?_eq_some h with ⟨c, tail, hcs, hgap, hc, hread⟩
  rcases Token.text_of_read hread with ⟨t, ht, rfl⟩
  rw [← List.append_assoc] at hread
  have := Token.read_exchange v' hx hread
  have hsplit : u ++ x :: v' = l.gap ++ c :: (t ++ w ++ x :: v') := by
    rw [hu, source, ht]
    simp only [List.append_assoc, List.cons_append]
  rw [hsplit, next?_gap_append hgap hc, this]

/-- A break character behind a terminated token is not read with it. -/
theorem next?_before_break {u w b : List Char} {l : Lexeme} (hb : Token.StartsWithBreak b)
    (ht : w = [] → l.token.Terminated) (h : next? u = some (l, w)) :
    next? (u ++ b) = some (l, w ++ b) := by
  rcases next?_eq_some h with ⟨c, tail, rfl, hgap, hc, hread⟩
  rw [List.append_assoc, List.cons_append, next?_gap_append hgap hc,
    Token.read_before_break hb ht hread]

/-- The next lexeme is read alike when the text behind it is cut off. -/
theorem next?_front {u w v : List Char} {l : Lexeme} (h : next? (u ++ v) = some (l, w ++ v)) :
    next? u = some (l, w) := by
  have hu : u = l.source ++ w := by
    have happ := source_append h
    rw [← List.append_assoc] at happ
    exact (List.append_cancel_right happ).symm
  rcases next?_eq_some h with ⟨c, tail, hcs, hgap, hc, hread⟩
  rcases Token.text_of_read hread with ⟨t, ht, rfl⟩
  rw [← List.append_assoc] at hread
  rw [hu, source, ht, List.append_assoc, List.cons_append, next?_gap_append hgap hc,
    Token.read_front hread]

/-! ## Many lexemes -/

namespace Reads

variable {cs mid rest u v w b : List Char} {ls ms : List Lexeme}

/-- Lexemes that are read one list behind the other are read in a row. -/
theorem append (h : Reads cs ls mid) (h' : Reads mid ms rest) : Reads cs (ls ++ ms) rest := by
  induction h with
  | done => exact h'
  | next hl _ ih => exact .next hl (ih h')

/-- The lexemes of a text are those read so far and those of the rest. -/
theorem ofText (h : Reads cs ls rest) : Lexeme.ofText cs = ls ++ Lexeme.ofText rest := by
  induction h with
  | done => rfl
  | next hl _ ih => rw [ofText_eq_cons hl, ih, List.cons_append]

/-- The lexemes read and the rest make up the text. -/
theorem source (h : Reads cs ls rest) : ls.flatMap Lexeme.source ++ rest = cs := by
  induction h with
  | done => rfl
  | next hl _ ih => rw [List.flatMap_cons, List.append_assoc, ih, source_append hl]

/-- All that reading leaves of a text is blank. -/
theorem of_ofText (cs : List Char) :
    ∃ blank, (∀ c ∈ blank, Text.isBlank c = true) ∧ Reads cs (Lexeme.ofText cs) blank := by
  cases h : next? cs with
  | none =>
    rw [ofText_eq_nil h]
    exact ⟨cs, next?_eq_none_iff.1 h, .done⟩
  | some r =>
    rcases r with ⟨l, mid⟩
    have := next?_length h
    rcases of_ofText mid with ⟨blank, hblank, hreads⟩
    rw [ofText_eq_cons h]
    exact ⟨blank, hblank, .next h hreads⟩
termination_by cs.length

/-- A property that every first lexeme has holds of all lexemes. -/
theorem forall_ofText {P : Lexeme → Prop}
    (h : ∀ {cs l rest}, next? cs = some (l, rest) → P l) (cs : List Char) :
    ∀ l ∈ Lexeme.ofText cs, P l := by
  have hall : ∀ {cs ls rest}, Reads cs ls rest → ∀ l ∈ ls, P l := by
    intro cs ls rest hreads
    induction hreads with
    | done => simp
    | next hl _ ih => simpa using ⟨h hl, ih⟩
  rcases of_ofText cs with ⟨blank, -, hreads⟩
  exact hall hreads

/-- What was read of a text can be split where its lexemes are split. -/
theorem split (h : Reads cs (ls ++ ms) rest) : ∃ mid, Reads cs ls mid ∧ Reads mid ms rest := by
  induction ls generalizing cs with
  | nil => exact ⟨cs, .done, h⟩
  | cons l ls ih =>
    cases h with
    | next hl h =>
      rcases ih h with ⟨mid, h1, h2⟩
      exact ⟨mid, .next hl h1, h2⟩

/-- The text from a character behind the lexemes on may be exchanged for any other, unless the
character is a point. -/
theorem exchange {x : Char} (v' : List Char) (hx : x ≠ '.')
    (h : Reads (u ++ x :: v) ls (w ++ x :: v)) : Reads (u ++ x :: v') ls (w ++ x :: v') := by
  induction ls generalizing u with
  | nil =>
    have hw : u = w := by
      have := h.source
      exact List.eq_append_of_append_cons (s := []) this
    rw [hw]
    exact .done
  | cons l ls ih =>
    cases h with
    | @next _ mid _ _ _ hl h =>
      have hmid : mid = ls.flatMap Lexeme.source ++ w ++ x :: v := by
        rw [← h.source, List.append_assoc]
      rw [hmid] at hl h
      exact .next (next?_exchange v' hx hl) (ih h)

/-- The text behind the lexemes may be cut off anywhere. -/
theorem front (h : Reads (u ++ v) ls (w ++ v)) : Reads u ls w := by
  induction ls generalizing u with
  | nil =>
    have hw : u = w := List.append_cancel_right h.source.symm
    rw [hw]
    exact .done
  | cons l ls ih =>
    cases h with
    | @next _ mid _ _ _ hl h =>
      have hmid : mid = ls.flatMap Lexeme.source ++ w ++ v := by
        rw [← h.source, List.append_assoc]
      rw [hmid] at hl h
      exact .next (next?_front hl) (ih h)

/-- A text that starts with a break character may be put behind lexemes that are terminated. -/
theorem before_break (hb : Token.StartsWithBreak b) (ht : ∀ l ∈ ls, l.token.Terminated)
    (h : Reads u ls w) : Reads (u ++ b) ls (w ++ b) := by
  induction h with
  | done => exact .done
  | next hl _ ih =>
    exact .next (next?_before_break hb (fun _ => ht _ (by simp)) hl)
      (ih fun l hl => ht l (by simp [hl]))

end Reads

end SelectAlgebra.Lexeme
