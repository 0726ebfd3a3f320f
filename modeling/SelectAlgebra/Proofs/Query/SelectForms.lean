import SelectAlgebra.Proofs.Query.ColumnTokens
import SelectAlgebra.Proofs.Query.Completeness
import SelectAlgebra.Proofs.Query.Expressions

/-!
# Select items with and without an alias

An expression can be written in a select list by itself, with an alias, or with AS and an alias.
Every statement with such items is read.  An item with an alias stands for its expression, and so
does one without, unless the expression ends in a name by itself behind a star or a word: then this
name is taken for an alias.

Main results:

- Theorem `Statement.ofText?_selecting`: the query of a statement with expressions in its select
  list.
- Theorem `Query.columns_selection`: which items stand for their expression.
-/

namespace SelectAlgebra

/-- Parts with another select list are the same query with the columns of that list. -/
theorem Query.ofParts?_selected {s : Parts} {q : Query} (list : Run) (h : ofParts? s = some q)
    (hne : columnsOf list ≠ []) : ofParts? { s with selected := list } =
      some { q with columns := (columnsOf list).map String.ofList } := by
  unfold ofParts? at h ⊢
  dsimp only at h ⊢
  split at h
  · cases h
  · rename_i hlists
    have htables : (tableNames s.clauses (Run.segments s.sources)).isEmpty = false := by
      simp only [Bool.or_eq_true, not_or, Bool.not_eq_true] at hlists
      exact hlists.2
    have hcolumns : (columnsOf list).isEmpty = false := by simpa using hne
    rw [← Option.some.inj h]
    simp only [hcolumns, htables, Bool.or_self, Bool.false_eq_true, if_false]

namespace Written

open Lexeme

/-! ## Lists of expressions -/

namespace Selection

variable (s : Selection) (gap : Blank)

/-- The run of an item is that of its expression and then its alias. -/
theorem run_eq : run (s.lexemes gap.1) =
    run (s.expression.lexemes gap.1) ++ s.label.lexemes.map top := by
  rw [lexemes, run_append (s.expression.part gap).balanced, Alias.run_eq]

/-- An item has a token. -/
theorem ne_nil_run : run (s.lexemes gap.1) ≠ [] := by
  obtain ⟨init, z, hlast, -⟩ := s.expression.exists_last gap
  simp [run_eq, hlast]

/-- No comma and no keyword stands outside parentheses in an item. -/
theorem inert : ∀ p ∈ run (s.lexemes gap.1),
    p.isTop .comma = false ∧ ∀ word ∈ Token.keywords, p.isTopKeyword word = false := by
  have hname : ∀ (n : Name) (g : List Char), (top ⟨g, n.token⟩).isTop .comma = false ∧
      ∀ word ∈ Token.keywords, (top ⟨g, n.token⟩).isTopKeyword word = false :=
    fun n g => (n.inert g).imp_right fun h word hword => h word (List.mem_cons_of_mem _ hword)
  intro p hp
  rw [run_eq, List.mem_append, List.mem_map] at hp
  rcases hp with hp | ⟨l, hl, rfl⟩
  · exact (s.expression.inert gap p hp).imp_right
      fun h word hword => h word (List.mem_cons_of_mem _ hword)
  · cases ha : s.label with
    | none => simp [ha, Alias.lexemes] at hl
    | name space n =>
      obtain rfl : l = ⟨space.1, n.token⟩ := by simpa [ha, Alias.lexemes] using hl
      exact hname n space.1
    | asName space as space' n =>
      simp only [ha, Alias.lexemes, List.mem_cons, List.not_mem_nil, or_false] at hl
      rcases hl with rfl | rfl
      · refine ⟨rfl, fun word hword => Placed.isTopKeyword_of_ne (as.isTopKeyword space.1) ?_⟩
        have hall : ∀ w ∈ Token.keywords, Text.lower "AS".toList ≠ Text.lower w.toList := by
          decide
        exact hall word hword
      · exact hname n space'.1

end Selection

namespace CommaList

variable (l : CommaList Selection)

/-- A list of expressions is a piece. -/
theorem piece_selections : Piece (l.lexemes Selection.lexemes) :=
  l.piece (fun gap s => s.part gap) fun space s => s.piece space

/-- The items of a list of expressions are its entries. -/
theorem items_selections : Run.items (run (l.lexemes Selection.lexemes)) =
    l.entries.map fun e => run (e.2.lexemes e.1.1) :=
  l.items_run (fun gap s => (s.part gap).balanced) (fun gap s p hp => (s.inert gap p hp).1)
    fun gap s => s.ne_nil_run gap

/-- A list of expressions is read as the columns of its items. -/
theorem columnsOf_selections (h : (run (l.lexemes Selection.lexemes)).Solid) :
    Query.columnsOf (run (l.lexemes Selection.lexemes)) = l.items.map Selection.column := by
  have hcolumn : ∀ e : Blank × Selection,
      SelectItem.column (run (e.2.lexemes e.1.1)) = e.2.column :=
    fun e => e.2.column_run e.1
  rw [Query.columnsOf_eq h, items_selections, List.map_map, ← l.map_entries]
  exact List.map_congr_left fun e _ => hcolumn e

/-- No keyword stands outside the parentheses of a list of expressions. -/
theorem no_keyword_selections {p : Placed} {word : String}
    (hp : p ∈ run (l.lexemes Selection.lexemes)) (hword : word ∈ Token.keywords) :
    p.isTopKeyword word = false := by
  rcases mem_run (fun gap s => (s.part gap).balanced) hp with ⟨gap, s, hp⟩ | hkind
  · exact (s.inert gap p hp).2 word hword
  · exact Placed.isTopKeyword_of_kind_ne word (by simp [hkind])

/-- A list of expressions starts with no reserved word. -/
theorem isReserved_head_selections : ∀ p ∈ (run (l.lexemes Selection.lexemes)).head?,
    SelectItem.isReserved p.token = false := by
  have hhead := l.head.expression.head.isReserved_head l.space.blank
  have hne : run (l.head.expression.head.lexemes l.space.1) ≠ [] :=
    l.head.expression.head.run_ne_nil l.space.blank
  have hbalanced : Balanced (l.head.expression.head.lexemes l.space.1) :=
    (l.head.expression.head.part l.space.blank).balanced
  intro p hp
  apply hhead p
  rw [lexemes, Selection.lexemes, Expression.lexemes, List.append_assoc, List.append_assoc,
    run_append hbalanced, List.head?_append_of_ne_nil _ hne] at hp
  exact hp

end CommaList

/-! ## Statements -/

namespace Statement

variable (w : Statement) (l : CommaList Selection)

/-- The text of the statement with expressions in place of its select list. -/
def selecting : List Char :=
  w.endedText (w.lexemesWith (l.lexemes Selection.lexemes))

/-- A statement with a list of expressions is a part. -/
theorem part_selecting : Part (w.lexemesWith (l.lexemes Selection.lexemes)) :=
  w.part_lexemesWith l.piece_selections

/-- Where the parts of the statement stand. -/
def outlineSelecting : Outline (run (w.lexemesWith (l.lexemes Selection.lexemes))) where
  opener := w.outline.opener
  quantifier := w.outline.quantifier
  selected := run (l.lexemes Selection.lexemes)
  fromWord := w.outline.fromWord
  sources := w.outline.sources
  clauses := w.outline.clauses
  run_eq := w.run_lexemesWith l.piece_selections.balanced
  quantifier_eq := w.outline.quantifier_eq.imp_right fun h => ⟨h.1, fun p hp => by
    have hreserved := l.isReserved_head_selections p hp
    rw [SelectItem.isReserved, List.any_eq_false] at hreserved
    exact ⟨by simpa using hreserved "DISTINCT" (by decide),
      by simpa using hreserved "ALL" (by decide)⟩⟩
  selected_free := fun _ hp => l.no_keyword_selections hp (by decide)
  fromWord_eq := w.outline.fromWord_eq
  sources_free := w.outline.sources_free
  clauses_open := w.outline.clauses_open

/-- A statement with a list of expressions is taken apart as it was put together. -/
theorem ofRun?_selecting : Parts.ofRun? (Run.ofText (w.selecting l)) =
    some { w.outline.parts with selected := run (l.lexemes Selection.lexemes) } := by
  have hopener : (w.outlineSelecting l).opener.token.isKeyword "SELECT" = true := w.select.isKeyword
  rw [selecting, w.run_endedText (w.part_selecting l)]
  exact (w.outlineSelecting l).ofRun?_eq hopener

/-- The query of a statement with expressions in its select list. -/
theorem ofText?_selecting : Query.ofText? (String.ofList (w.selecting l)) =
    some { w.query with columns := l.items.map fun s => String.ofList s.column } := by
  have hsolid : (run (l.lexemes Selection.lexemes)).Solid := by
    have hall := Run.solid_ofText (w.selecting l)
    rw [selecting, w.run_endedText (w.part_selecting l)] at hall
    exact hall.of_subset fun p hp => (w.outlineSelecting l).mem_run (Or.inl hp)
  have hcolumns := l.columnsOf_selections hsolid
  have hne : Query.columnsOf (run (l.lexemes Selection.lexemes)) ≠ [] := by
    rw [hcolumns]
    simp [CommaList.items]
  have hselect : StartsWithSelect (String.ofList (w.selecting l)) :=
    w.startsWithSelect_endedText w.select (w.part_selecting l)
  rw [Query.ofText?_eq_ofRun? hselect, String.toList_ofList, Query.ofRun?, ofRun?_selecting,
    Option.bind_some, Query.ofParts?_selected _ w.ofParts?_outline hne, hcolumns, List.map_map]
  rfl

/-- The items of the select list are those that were written. -/
theorem selectItems_selecting : Query.selectItems (String.ofList (w.selecting l)) =
    l.entries.map fun e => run (e.2.lexemes e.1.1) := by
  rw [Query.selectItems, String.toList_ofList, ofRun?_selecting]
  exact l.items_selections

end Statement

end Written

namespace Query

open Written

/-- The forms of a select item.  In every query, an item that is written as an expression, alone or
with an alias, stands for the text of the expression without qualifiers exactly when it has an alias
or the expression does not end in a name by itself behind a star or a word.  Such an item can stand
anywhere in the select list of any statement.  The text without qualifiers is that of the operands
with everything between them as it stands, and a path is left with its last name. -/
theorem columns_selection (s : Selection) :
    (∀ text q, ofText? text = some q → List.Forall₂ (fun item column =>
        ∀ gap : Blank, item = run (s.lexemes gap.1) →
          (column = String.ofList s.expression.column ↔
            (s.label = .none → s.expression.endsLikeAlias = false)))
      (selectItems text) q.columns) ∧
    (∀ (w : Statement) (l : CommaList Selection), s ∈ l.items →
      (∃ columns, ofText? (String.ofList (w.selecting l)) = some { w.query with columns }) ∧
        ∃ gap : Blank, run (s.lexemes gap.1) ∈ selectItems (String.ofList (w.selecting l))) ∧
    s.expression.column = s.expression.head.column ++ (s.expression.links.flatMap fun k =>
      k.before.1 ++ (k.operator.token.text ++ (k.after.1 ++ k.operand.column))) ∧
    ∀ p : Path, (Operand.path p).column = p.last.token.text := by
  refine ⟨?_, ?_, s.expression.column_eq, Operand.column_path⟩
  · intro text q h
    rw [(columns_eq_selectItems h).1, List.forall₂_map_right_iff, List.forall₂_same]
    rintro item - gap rfl
    rw [s.column_run gap, String.ofList_inj]
    exact s.column_eq_iff
  · intro w l hs
    refine ⟨⟨_, w.ofText?_selecting l⟩, ?_⟩
    rw [w.selectItems_selecting l]
    obtain ⟨e, he, rfl⟩ : ∃ e ∈ l.entries, e.2 = s := by
      rw [← List.map_id l.items, ← l.map_entries] at hs
      exact List.mem_map.1 hs
    exact ⟨e.1, List.mem_map_of_mem he⟩

/-- A name by itself behind a star. -/
def product : Expression where
  head := .path ⟨.bare 'a' [] (by decide) (by decide) (by decide), []⟩
  links := [⟨Statement.oneSpace, .star, Statement.oneSpace,
    .path ⟨.bare 'b' [] (by decide) (by decide) (by decide), []⟩⟩]

/-- The name is taken for an alias. -/
theorem ofText?_product : ofText? "SELECT a * b FROM t" =
    some ⟨false, ["t"], ["a *"], [], [], [], [], []⟩ := by
  decide +kernel

/-- Not every expression without an alias is kept. -/
theorem not_forall_columns_selection :
    ¬ ∀ text q, ofText? text = some q → List.Forall₂ (fun item column =>
        ∀ (gap : Blank) (s : Selection), item = run (s.lexemes gap.1) →
          column = String.ofList s.expression.column)
      (selectItems text) q.columns := by
  intro hall
  have hitems : selectItems "SELECT a * b FROM t" =
      [run (Selection.lexemes [' '] ⟨product, .none⟩)] := by
    decide +kernel
  have hcolumns := hall _ _ ofText?_product
  rw [hitems] at hcolumns
  obtain ⟨hfirst, -⟩ := List.forall₂_cons.1 hcolumns
  have hcolumn := hfirst Statement.oneSpace.blank ⟨product, .none⟩ rfl
  revert hcolumn
  decide +kernel

end Query

end SelectAlgebra
