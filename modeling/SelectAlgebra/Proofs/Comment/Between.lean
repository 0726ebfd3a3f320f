import SelectAlgebra.Proofs.Comment.Lexemes
import SelectAlgebra.Proofs.Token.Located

/-!
# Between two tokens

The comment scan keeps the characters of a text in their order, and what it puts for a comment is
blank.  So two characters that are no blanks stand in the text as they stand in what the scan
leaves, with nothing but blanks and comments between them; and nothing stands between them in the
one exactly when nothing does in the other.

Main results:

- Theorem `exists_of_stripFrom_eq`: a character that the scan leaves stands in the text.
- Theorem `exists_between`: what stands in a text between two characters that the scan leaves.
- Theorem `Lexeme.exists_between`: the same for two tokens, of which one stands behind the other.
-/

namespace SelectAlgebra

namespace Comment

/-- The scan keeps the next character, unless it opens a comment. -/
def Mode.Keeps : Mode → Prop
  | .code => True
  | .quoted q => isQuote q = true
  | .line | .block => False

/-- What the scan is inside of behind a character that it keeps. -/
def Mode.after (c : Char) : Mode → Mode
  | .quoted q => if c = q then .code else .quoted q
  | _ => if isQuote c then .quoted c else .code

variable {m : Mode} {cs a r : List Char} {x y : Char}

/-- A mode that keeps characters goes on to one that does. -/
theorem Mode.Keeps.after (c : Char) (h : m.Keeps) : (m.after c).Keeps := by
  cases m with
  | code =>
    cases hc : isQuote c with
    | true => simp [Mode.after, Keeps, hc]
    | false => simp [Mode.after, Keeps, hc]
  | quoted q =>
    by_cases hc : c = q
    · simp [Mode.after, Keeps, hc]
    · simpa [Mode.after, Keeps, hc] using h
  | line | block => cases h

/-! ## A character that is left -/

/-- Where no comment opens in a text, none opens in its front part. -/
theorem opensComment_prefix {c : Char} {front back : List Char}
    (h : opensComment (c :: (front ++ back)) = false) : opensComment (c :: front) = false := by
  apply opensComment_of_head? h
  intro d hd _
  rw [List.head?_append, hd]
  rfl

/-- A character that the scan leaves, and that is no blank, stands in the text behind what the scan
leaves in front of it. -/
theorem exists_of_stripFrom_eq (hm : ∀ q, m = .quoted q → isQuote q = true)
    (hx : Text.isBlank x = false) (h : stripFrom m cs = a ++ x :: r) :
    ∃ front back, cs = front ++ x :: back ∧ stripFrom m front = a ∧ (endMode m front).Keeps ∧
      stripFrom ((endMode m front).after x) back = r := by
  have hput : ∀ {c : Char} {w : List Char} {a : List Char}, Text.isBlank c = true →
      c :: w = a ++ x :: r → ∃ a', a = c :: a' ∧ w = a' ++ x :: r := by
    intro c w a hc heq
    rcases List.cons_eq_append_iff.1 heq with ⟨-, hfirst⟩ | hsplit
    · rw [← (List.cons.inj hfirst).1, hx] at hc
      cases hc
    · exact hsplit
  fun_induction stripFrom m cs generalizing a with
  | case1 =>
    obtain ⟨a', -, hnil⟩ := hput (by decide) h
    simp at hnil
  | case2 m hblock => simp at h
  | case3 cs ih =>
    obtain ⟨front, back, rfl, hrest⟩ := ih (by simp) h
    exact ⟨'-' :: '-' :: front, back, rfl, hrest⟩
  | case4 cs ih =>
    obtain ⟨front, back, rfl, hrest⟩ := ih (by simp) h
    exact ⟨'/' :: '*' :: front, back, rfl, hrest⟩
  | case5 c cs h1 h2 ih =>
    rcases List.cons_eq_append_iff.1 h with ⟨rfl, hfirst⟩ | ⟨a', rfl, htail⟩
    · obtain ⟨rfl, rfl⟩ := List.cons.inj hfirst
      exact ⟨[], cs, rfl, rfl, trivial, rfl⟩
    · have hmode : ∀ q, (if isQuote c then Mode.quoted c else .code) = .quoted q →
          isQuote q = true := by
        intro q hq
        split at hq
        · rename_i hc
          rwa [← Mode.quoted.inj hq]
        · cases hq
      obtain ⟨front, back, rfl, ha, hkeeps, hback⟩ := ih hmode htail
      have hopen : opensComment (c :: front) = false :=
        opensComment_prefix (opensComment_eq_false h1 h2)
      rw [← endMode_code_cons hopen] at hkeeps hback
      exact ⟨c :: front, back, rfl, by rw [stripFrom_code_cons hopen, ha], hkeeps, hback⟩
  | case6 q c cs ih =>
    have hq : isQuote q = true := hm q rfl
    rcases List.cons_eq_append_iff.1 h with ⟨rfl, hfirst⟩ | ⟨a', rfl, htail⟩
    · obtain ⟨rfl, rfl⟩ := List.cons.inj hfirst
      exact ⟨[], cs, rfl, rfl, hq, rfl⟩
    · have hmode : ∀ d, (if c = q then Mode.code else .quoted q) = .quoted d →
          isQuote d = true := by
        intro d hd
        split at hd
        · cases hd
        · rwa [← Mode.quoted.inj hd]
      obtain ⟨front, back, rfl, ha, hkeeps, hback⟩ := ih hmode htail
      refine ⟨c :: front, back, rfl, ?_⟩
      rw [stripFrom, endMode, ha]
      exact ⟨rfl, hkeeps, hback⟩
  | case7 cs ih =>
    obtain ⟨a', rfl, htail⟩ := hput (by decide) h
    obtain ⟨front, back, rfl, ha, hkeeps, hback⟩ := ih (by simp) htail
    exact ⟨'\n' :: front, back, rfl, by simp [stripFrom, ha], hkeeps, hback⟩
  | case8 c cs hc ih =>
    obtain ⟨front, back, rfl, ha, hkeeps, hback⟩ := ih (by simp) h
    refine ⟨c :: front, back, rfl, ?_⟩
    rw [stripFrom, endMode, if_neg hc, if_neg hc]
    exact ⟨ha, hkeeps, hback⟩
  | case9 cs ih =>
    obtain ⟨a', rfl, htail⟩ := hput (by decide) h
    obtain ⟨front, back, rfl, ha, hrest⟩ := ih (by simp) htail
    exact ⟨'*' :: '/' :: front, back, rfl, by rw [stripFrom, ha], hrest⟩
  | case10 c cs hc ih =>
    obtain ⟨front, back, rfl, ha, hkeeps, hback⟩ := ih (by simp) h
    -- the comment is closed in front of the character, so there is more of it
    have hends : ∀ ds, c = '*' → front = '/' :: ds → False := by
      rintro ds rfl rfl
      exact hc _ rfl rfl
    refine ⟨c :: front, back, rfl, ?_⟩
    rw [stripFrom, endMode]
    · exact ⟨ha, hkeeps, hback⟩
    · exact hends
    · exact hends

/-! ## Between two characters that are left -/

/-- Where the scan keeps the next character, it has left nothing of nothing only. -/
theorem eq_nil_of_stripFrom_eq_nil (h : stripFrom m cs = []) (hkeeps : (endMode m cs).Keeps) :
    m.Keeps ∧ cs = [] := by
  fun_induction stripFrom m cs with
  | case1 => cases h
  | case2 m hblock => exact ⟨hkeeps, rfl⟩
  | case3 cs ih => cases (ih h hkeeps).1
  | case4 cs ih => cases (ih h hkeeps).1
  | case5 | case6 | case7 | case9 => cases h
  | case8 c cs hc ih =>
    rw [endMode, if_neg hc] at hkeeps
    cases (ih h hkeeps).1
  | case10 c cs hc ih =>
    rw [endMode] at hkeeps
    · cases (ih h hkeeps).1
    · exact hc

/-- Inside a quoted run, where all that the scan leaves is blank, it keeps the text. -/
theorem stripFrom_quoted_of_blank {q : Char} (hq : isQuote q = true)
    (h : ∀ c ∈ stripFrom (.quoted q) cs, Text.isBlank c = true) :
    stripFrom (.quoted q) cs = cs := by
  induction cs with
  | nil => rfl
  | cons c cs ih =>
    have hne : c ≠ q := by
      rintro rfl
      have hblank := h c (by simp [stripFrom])
      rw [Token.isQuote_of_isBreak (isBreak_of_isBlank hblank)] at hq
      cases hq
    rw [stripFrom, if_neg hne] at h ⊢
    rw [ih fun d hd => h d (List.mem_cons_of_mem c hd)]

/-- Where the scan leaves two characters that are no blanks with blanks between them, they stand in
the text with blanks and comments between them, or with nothing where there are no blanks. -/
theorem exists_between {gap : List Char} (hx : Text.isBlank x = false)
    (hy : Text.isBlank y = false) (hgap : ∀ c ∈ gap, Text.isBlank c = true)
    (h : strip cs = a ++ x :: (gap ++ y :: r)) :
    ∃ front between back, cs = front ++ x :: (between ++ y :: back) ∧ strip front = a ∧
      strip between = gap ∧ (between = [] ↔ gap = []) := by
  obtain ⟨front, rest, rfl, hfront, hkeeps, hrest⟩ := exists_of_stripFrom_eq (by simp) hx h
  have hafter : ((endMode .code front).after x).Keeps := hkeeps.after x
  generalize (endMode .code front).after x = m at hafter hrest
  have hm : ∀ q, m = .quoted q → isQuote q = true := by
    rintro q rfl
    exact hafter
  obtain ⟨between, back, rfl, hbetween, hend, -⟩ := exists_of_stripFrom_eq hm hy hrest
  refine ⟨front, between, back, rfl, hfront, ?_, ?_, ?_⟩
  · cases m with
    | code => exact hbetween
    | quoted q =>
      have hkept : stripFrom (.quoted q) between = between := by
        apply stripFrom_quoted_of_blank hafter
        rw [hbetween]
        exact hgap
      rw [hkept] at hbetween
      subst hbetween
      have hstrip := (scan_gap [] hgap).1
      rw [List.append_nil] at hstrip
      rw [hstrip]
      exact List.append_nil between
    | line | block => cases hafter
  · rintro rfl
    cases m with
    | code | quoted _ | line => exact hbetween.symm
    | block => cases hafter
  · rintro rfl
    exact (eq_nil_of_stripFrom_eq_nil hbetween hend).2

end Comment

/-! ## Between two tokens -/

/-- What stands in a text between the last character of a token and the first character of the
next: blanks and comments, of which the scan leaves the gap, and nothing where there is no gap. -/
theorem Lexeme.exists_between {cs : List Char} {ls ms : List Lexeme} {l m : Lexeme}
    (h : ofText (Comment.strip cs) = ls ++ l :: m :: ms) :
    ∃ front x between y back, cs = front ++ x :: (between ++ y :: back) ∧
      Comment.strip front ++ [x] = sourceAll (ls ++ [l]) ∧ m.token.text.head? = some y ∧
      Comment.strip between = m.gap ∧ (between = [] ↔ m.gap = []) := by
  obtain ⟨blank, -, hreads⟩ := Reads.of_ofText (Comment.strip cs)
  rw [h] at hreads
  obtain ⟨mid, hls, hrest⟩ := hreads.split
  cases hrest with
  | next hl hrest =>
    cases hrest with
    | next hm _ =>
      obtain ⟨y, ys, rfl, hgap, hy, hreadm⟩ := next?_eq_some hm
      obtain ⟨c, cs', hfirst, -⟩ := text_of_next? hl
      obtain ⟨init, x, hlast⟩ :=
        (List.eq_nil_or_concat' l.token.text).resolve_left (by simp [hfirst])
      have hclosed : l.token.Terminated := terminated_of_next? hl (by simp)
      have hx : Text.isBlank x = false :=
        isBlank_of_getLast? l (by rw [h]; simp) hclosed x (by simp [hlast])
      obtain ⟨text, htext, -⟩ := Token.text_of_read hreadm
      have hsource : Comment.strip cs =
          (sourceAll ls ++ (l.gap ++ init)) ++ x :: (m.gap ++ y :: ys) := by
        rw [← hls.source, ← source_append hl, source, hlast, sourceAll]
        simp
      obtain ⟨front, between, back, hcs, hfront, hbetween, hnil⟩ :=
        Comment.exists_between hx hy hgap hsource
      refine ⟨front, x, between, y, back, hcs, ?_, by rw [htext]; rfl, hbetween, hnil⟩
      rw [hfront, sourceAll_append, sourceAll_cons, source, hlast]
      simp

end SelectAlgebra
