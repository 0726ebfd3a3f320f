import SelectAlgebra.Proofs.Expr.Unambiguous

/-!
# Line breaks in the one-line form

An operator adds no line break of its own to the one-line form, and of all that it writes, only the
condition of a join has its blanks collapsed.  So the form has a line break exactly when a name of
a table, a predicate or a column has one.

Main results:

- Theorem `Text.breaks_intercalate`: a list has the line breaks of its entries.
- Theorem `Layer.breaks_texts`: which line breaks an operator writes.
- Theorem `Expr.breaks_oneLine`: which line breaks the form of an expression has.
-/

namespace SelectAlgebra

namespace Text

/-- A character behind which a line ends, whatever follows. -/
def isLineBreak (c : Char) : Bool :=
  let n := c.toNat
  (0x0A ≤ n && n ≤ 0x0D) || n == 0x85 || n == 0x2028 || n == 0x2029

/-- The text takes more than one line. -/
def breaks (cs : List Char) : Bool :=
  cs.any isLineBreak

/-- A line break is a blank. -/
theorem isBlank_of_isLineBreak {c : Char} (h : isLineBreak c = true) : isBlank c = true := by
  simp only [isLineBreak, Bool.or_eq_true, Bool.and_eq_true, decide_eq_true_eq, beq_iff_eq] at h
  simp only [isBlank, Bool.or_eq_true, Bool.and_eq_true, decide_eq_true_eq, beq_iff_eq]
  omega

@[simp]
theorem breaks_nil : breaks [] = false :=
  rfl

@[simp]
theorem breaks_cons (c : Char) (cs : List Char) : breaks (c :: cs) = (isLineBreak c || breaks cs) :=
  List.any_cons

@[simp]
theorem breaks_append (cs ds : List Char) : breaks (cs ++ ds) = (breaks cs || breaks ds) :=
  List.any_append

/-- A text without a blank breaks no line. -/
theorem breaks_of_no_blank {cs : List Char} (h : ∀ c ∈ cs, isBlank c = false) :
    breaks cs = false := by
  rw [breaks, List.any_eq_false]
  intro c hc hbreak
  have hblank := isBlank_of_isLineBreak hbreak
  rw [h c hc] at hblank
  cases hblank

/-- A text with its blanks collapsed has no line break. -/
theorem breaks_collapse (cs : List Char) : breaks (collapse cs) = false := by
  rw [breaks, List.any_eq_false]
  intro c hc hbreak
  rcases mem_of_mem_collapse hc with rfl | ⟨-, hblank⟩
  · exact absurd hbreak (by decide)
  · rw [isBlank_of_isLineBreak hbreak] at hblank
    cases hblank

/-- A list has the line breaks of its entries. -/
theorem breaks_intercalate {sep : String} (hsep : breaks sep.toList = false)
    (entries : List String) :
    breaks (sep.intercalate entries).toList = entries.any fun x => breaks x.toList := by
  rw [String.toList_intercalate]
  induction entries with
  | nil => rfl
  | cons x entries ih =>
    cases entries with
    | nil => simp
    | cons y entries =>
      rw [List.map_cons] at ih ⊢
      rw [List.map_cons, List.intercalate_cons_cons, breaks_append, breaks_append, ih, hsep,
        Bool.or_false]
      rfl

end Text

open Text (breaks)

/-- No glyph is a line break. -/
theorem Symbol.isLineBreak_glyph (s : Symbol) : Text.isLineBreak s.glyph = false := by
  have hall : ∀ t ∈ all, Text.isLineBreak t.glyph = false := by decide
  exact hall s (mem_all s)

/-- A sort key breaks a line when its column does. -/
theorem SortKey.breaks_text (k : SortKey) : breaks k.text.toList = breaks k.column.toList := by
  have hkeyword : breaks k.direction.keyword.toList = false := by
    cases k.direction <;> decide
  simp [text, hkeyword, Text.isLineBreak]

namespace Layer

/-- The texts that an operator writes as they are. -/
def texts : Layer → List String
  | join _ _ right => [right]
  | select entries | group entries | project entries => entries
  | sort keys => keys.map SortKey.column

variable (l : Layer)

/-- A header breaks a line when its subscript does. -/
theorem breaks_header : breaks l.header.toList = breaks l.subscript.toList := by
  have hbracket : ∀ c ∈ ['[', ']'], Text.isLineBreak c = false := by decide
  rw [toList_header, Text.breaks_cons, l.symbol.isLineBreak_glyph]
  simp [hbracket]

/-- What an operator writes has the line breaks of the texts that it writes as they are. -/
theorem breaks_texts :
    (breaks l.subscript.toList || l.right?.any fun right => breaks right.toList) =
      l.texts.any fun x => breaks x.toList := by
  have hand : breaks (" " ++ Symbol.conjunction.text ++ " ").toList = false := by decide
  have hcomma : breaks ", ".toList = false := by decide
  cases l with
  | join kind condition right =>
    simp [texts, subscript, right?, Expr.collapseBlanks, Text.breaks_collapse]
  | select predicates =>
    rw [subscript, Text.breaks_intercalate hand]
    simp [texts, right?]
  | group columns | project columns =>
    rw [subscript, Text.breaks_intercalate hcomma]
    simp [texts, right?]
  | sort keys =>
    rw [subscript, Text.breaks_intercalate hcomma]
    simp [texts, right?, Function.comp_def, SortKey.breaks_text]

end Layer

namespace Expr

/-- The form of an expression has the line breaks of the tables at the bottom and of the texts that
the operators write as they are. -/
theorem breaks_oneLine (e : Expr) :
    breaks e.oneLine.toList =
      (e.bottom.tables ++ e.layers.flatMap Layer.texts).any fun x => breaks x.toList := by
  induction e using layerInduction with
  | relation name => simp [oneLine, bottom, layers, tables]
  | product names =>
    have htimes : breaks (" " ++ Symbol.product.text ++ " ").toList = false := by decide
    have hparen : ∀ c ∈ ['(', ')'], Text.isLineBreak c = false := by decide
    rw [oneLine, String.toList_append, String.toList_append, Text.breaks_append,
      Text.breaks_append, Text.breaks_intercalate htimes]
    simp [bottom, layers, tables, hparen]
  | above l e ih =>
    have hmark : ∀ c ∈ ['(', ')', ' '], Text.isLineBreak c = false := by decide
    have hform : breaks (l.above e).oneLine.toList = (breaks e.oneLine.toList ||
        (breaks l.subscript.toList || l.right?.any fun right => breaks right.toList)) := by
      rw [oneLine_above]
      cases l.right? <;> simp [hmark, l.breaks_header, Bool.or_comm]
    rw [hform, ih, l.breaks_texts, bottom_above, layers_above, List.flatMap_cons, List.any_append,
      List.any_append, List.any_append, Bool.or_assoc, Bool.or_comm (List.any _ _) (l.texts.any _)]

end Expr

end SelectAlgebra
