import SelectAlgebra.Proofs.Statement.Items
import SelectAlgebra.Proofs.Text.Parts
import SelectAlgebra.Query.OfText

/-!
# Entries of a query

No item of a list is lost when it is read: what stays of a select item behind its alias and its
qualifiers is not empty, an item of a FROM list has a table, and an item of ORDER BY has a column.
So a list of a query has as many entries as there are items.

Main results:

- Theorem `SelectItem.column_ne_nil`: a select item has a column.
- Theorem `Query.length_columnsOf`: there are as many columns as select items.
- Theorem `Query.length_tableNames_segments`: there are as many tables as items of a FROM list.
- Theorem `SortKey.ofItem?_isSome`: an item of ORDER BY has a sort key.
-/

namespace SelectAlgebra

/-! ## Runs -/

/-- A run that is not empty starts with a character that is no blank. -/
theorem Run.text_cons {r : Run} (h : r.Solid) (hne : r ≠ []) :
    ∃ c cs, Run.text r = c :: cs ∧ Text.isBlank c = false := by
  rcases List.exists_cons_of_ne_nil hne with ⟨p, ps, rfl⟩
  rcases h p (by simp) with ⟨c, cs, hc, hblank⟩
  exact ⟨c, cs ++ ps.flatMap fun q => q.source, by simp [Run.text, hc], hblank⟩

/-- A run that is not empty has a word. -/
theorem Run.words_text_ne_nil {r : Run} (h : r.Solid) (hne : r ≠ []) :
    Text.words (Run.text r) ≠ [] := by
  rcases Run.text_cons h hne with ⟨c, cs, htext, hc⟩
  rw [htext]
  exact Text.words_cons_ne_nil cs hc

/-! ## Select items -/

namespace SelectItem

/-- An item keeps its first lexeme when its alias goes. -/
theorem operand_cons (p : Placed) (ps : Run) : ∃ rest, operand (p :: ps) = p :: rest ∧
    ∀ q ∈ rest, q ∈ ps := by
  rw [operand]
  split
  · exact ⟨_, rfl, fun q hq => List.takeWhile_subset _ hq⟩
  · split
    · rename_i halias
      cases ps with
      | nil => simp [endsInAlias] at halias
      | cons q qs => exact ⟨_, rfl, fun x hx => List.dropLast_subset _ hx⟩
    · exact ⟨ps, rfl, fun q hq => hq⟩

/-- The operand of an item is made of its tokens. -/
theorem operand_subset (item : Run) : operand item ⊆ item := by
  cases item with
  | nil => exact List.Subset.refl []
  | cons p ps =>
    rcases operand_cons p ps with ⟨rest, hop, hsub⟩
    rw [hop]
    exact List.cons_subset_cons p hsub

theorem withGap_ne_nil {gap : List Char} {r : Run} (h : r ≠ []) : withGap gap r ≠ [] := by
  cases r with
  | nil => exact absurd rfl h
  | cons p ps => simp [withGap]

/-- A gap in front of a run leaves its tokens. -/
theorem exists_of_mem_withGap {gap : List Char} {r : Run} :
    ∀ p ∈ withGap gap r, ∃ q ∈ r, q.token = p.token := by
  cases r with
  | nil => simp [withGap]
  | cons q r =>
    intro p hp
    rcases List.mem_cons.1 hp with rfl | hp
    · exact ⟨q, by simp, rfl⟩
    · exact ⟨p, by simp [hp], rfl⟩

/-- Taking the qualifiers away leaves a lexeme. -/
theorem unqualify_ne_nil {r : Run} (h : r ≠ []) : unqualify r ≠ [] := by
  fun_induction unqualify r with
  | case1 p d q r hq ih => exact withGap_ne_nil (ih (List.cons_ne_nil q r))
  | case2 p d q r hq ih => exact List.cons_ne_nil p _
  | case3 r => exact h

/-- Taking the qualifiers away leaves tokens of the run. -/
theorem exists_of_mem_unqualify (r : Run) : ∀ p ∈ unqualify r, ∃ q ∈ r, q.token = p.token := by
  fun_induction unqualify r with
  | case1 n d q r hq ih =>
    intro p hp
    rcases exists_of_mem_withGap p hp with ⟨x, hx, hxp⟩
    rcases ih x hx with ⟨y, hy, hyx⟩
    exact ⟨y, List.mem_cons_of_mem _ (List.mem_cons_of_mem _ hy), hyx.trans hxp⟩
  | case2 n d q r hq ih =>
    intro p hp
    rcases List.mem_cons.1 hp with rfl | hp
    · exact ⟨p, List.mem_cons_self, rfl⟩
    · rcases ih p hp with ⟨y, hy, hyp⟩
      exact ⟨y, List.mem_cons_of_mem _ hy, hyp⟩
  | case3 r => exact fun p hp => ⟨p, hp, rfl⟩

/-- What stays of a select item for its column are tokens of the item. -/
theorem exists_of_mem_columnRun {item : Run} :
    ∀ p ∈ unqualify (operand item), ∃ q ∈ item, q.token = p.token := by
  intro p hp
  rcases exists_of_mem_unqualify _ p hp with ⟨q, hq, hqp⟩
  exact ⟨q, operand_subset item hq, hqp⟩

/-- A select item has a column. -/
theorem column_ne_nil {item : Run} (h : item.Solid) (hne : item ≠ []) : column item ≠ [] := by
  have hsolid : (unqualify (operand item)).Solid := h.of_tokens exists_of_mem_columnRun
  have hrest : unqualify (operand item) ≠ [] := by
    rcases List.exists_cons_of_ne_nil hne with ⟨p, ps, rfl⟩
    rcases operand_cons p ps with ⟨rest, hop, -⟩
    exact unqualify_ne_nil (by simp [hop])
  rcases Run.text_cons hsolid hrest with ⟨c, cs, htext, -⟩
  rw [column, htext]
  exact List.cons_ne_nil c cs

end SelectItem

/-! ## Lists of entries -/

/-- The items of a solid run are solid. -/
theorem Run.Solid.item {r s : Run} (h : r.Solid) (hs : s ∈ Run.items r) : s.Solid :=
  h.of_subset fun p hp => ((Run.mem_items hs).2 p hp).1

namespace Query

/-- No column of a select list is lost. -/
theorem columnsOf_eq {r : Run} (h : r.Solid) :
    columnsOf r = (Run.items r).map SelectItem.column := by
  rw [columnsOf, List.filter_eq_self]
  intro c hc
  rcases List.mem_map.1 hc with ⟨s, hs, rfl⟩
  simpa using SelectItem.column_ne_nil (h.item hs) (Run.mem_items hs).1

/-- There are as many columns as select items. -/
theorem length_columnsOf {r : Run} (h : r.Solid) :
    (columnsOf r).length = (Run.items r).length := by
  rw [columnsOf_eq h, List.length_map]

/-- An item of a FROM list has a table. -/
theorem tableName?_isSome {item : Run} (next : Run) (h : item.Solid) (hne : item ≠ []) :
    (tableName? item next).isSome = true := by
  have hword : (Text.words (Run.text item)).head?.isSome = true := by
    simpa using Run.words_text_ne_nil h hne
  unfold tableName?
  split
  · split
    · exact hword
    · rfl
  · exact hword

@[simp]
theorem tableName?_nil (next : Run) : tableName? [] next = none :=
  rfl

/-- What follows the last item of a FROM list matters for that item only. -/
theorem tableNames_cons (next item : Run) (items : List Run) :
    tableNames next (item :: items) =
      (tableName? item (if items.isEmpty then next else [])).toList ++ tableNames next items := by
  cases items with
  | nil => exact (List.append_nil _).symm
  | cons t ts =>
    rw [tableNames]
    · rfl
    · exact List.cons_ne_nil t ts

/-- There are as many tables as parts of a FROM list that are not empty. -/
theorem length_tableNames {next : Run} {parts : List Run} (h : ∀ s ∈ parts, s.Solid) :
    (tableNames next parts).length = (parts.filter fun s => !s.isEmpty).length := by
  have hone : ∀ s next, Run.Solid s →
      (tableName? s next).toList.length = if s.isEmpty then 0 else 1 := by
    intro s next hs
    by_cases hne : s = []
    · simp [hne]
    · rcases Option.isSome_iff_exists.1 (tableName?_isSome next hs hne) with ⟨name, hname⟩
      simp [hname, hne]
  induction parts with
  | nil => rfl
  | cons s parts ih =>
    rw [tableNames_cons, List.length_append, ih fun x hx => h x (by simp [hx]),
      hone s _ (h s (by simp))]
    cases hempty : s.isEmpty <;> simp [hempty, Nat.add_comm]

/-- There are as many tables as items of a FROM list. -/
theorem length_tableNames_segments {next r : Run} (h : r.Solid) :
    (tableNames next (Run.segments r)).length = (Run.items r).length :=
  length_tableNames fun _ hs => h.of_subset fun _ hp => List.mem_of_mem_splitOnP hs hp

end Query

/-- An item of ORDER BY has a sort key. -/
theorem SortKey.ofItem?_isSome {item : Run} (h : item.Solid) (hne : item ≠ []) :
    (SortKey.ofItem? item).isSome = true := by
  rcases List.exists_cons_of_ne_nil (Run.words_text_ne_nil h hne) with ⟨w, ws, hw⟩
  simp [SortKey.ofItem?, hw]

end SelectAlgebra
