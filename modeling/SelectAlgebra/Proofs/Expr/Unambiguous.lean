import SelectAlgebra.Proofs.Expr.Layer
import SelectAlgebra.Proofs.Text.Parts

/-!
# The one-line form tells the expression

In an expression with plain names and subscripts, every part of the one-line form ends at a place
that the characters alone show: a name at a blank or a parenthesis, a subscript at its bracket, an
entry of a list at the separator.  So an expression can be told from its form, and from where the
form stands in a longer text, up to the blanks in its conditions of joins.

Main results:

- Theorem `Layer.eq_of_subscript`: an operator is told by its symbol and its subscript.
- Theorem `Expr.oneLine_append_inj`: an expression is told by a text that starts with its form.
- Theorem `Expr.oneLine_eq_iff`: two expressions have one form only if they are the same.
-/

namespace SelectAlgebra

/-! ## Symbols -/

/-- A character that encloses a part of a written expression. -/
def isMark (c : Char) : Bool :=
  c == '(' || c == ')' || c == '[' || c == ']'

/-- A character of a plain name. -/
def isNameChar (c : Char) : Bool :=
  !Text.isBlank c && !isMark c

namespace Symbol

/-- A glyph could stand in a name. -/
theorem isNameChar_glyph (s : Symbol) : isNameChar s.glyph = true := by
  have hall : ∀ t ∈ all, isNameChar t.glyph = true := by decide
  exact hall s (mem_all s)

/-- No glyph is a mark of the one-line form. -/
theorem isMark_glyph (s : Symbol) : isMark s.glyph = false := by
  have := isNameChar_glyph s
  simp_all [isNameChar]

/-- No two symbols have one glyph. -/
theorem eq_of_glyph_eq {s t : Symbol} (h : s.glyph = t.glyph) : s = t := by
  have hall : ∀ s ∈ all, ∀ t ∈ all, s.glyph = t.glyph → s = t := by decide
  exact hall s (mem_all s) t (mem_all t) h

end Symbol

/-! ## Plain expressions -/

/-- A name of a table that is not empty and has no blank, no parenthesis and no bracket. -/
def IsPlainName (name : String) : Prop :=
  name ≠ "" ∧ ∀ c ∈ name.toList, isNameChar c = true

/-- The entries of the operator are not empty, as a list, and have neither the bracket that ends a
subscript nor the character that separates them. -/
def Layer.Plain : Layer → Prop
  | join _ condition _ => ']' ∉ condition.toList
  | select predicates =>
    predicates ≠ [] ∧ ∀ p ∈ predicates, ']' ∉ p.toList ∧ Symbol.conjunction.glyph ∉ p.toList
  | group columns | project columns =>
    columns ≠ [] ∧ ∀ c ∈ columns, ']' ∉ c.toList ∧ ',' ∉ c.toList
  | sort keys => keys ≠ [] ∧ ∀ k ∈ keys, ']' ∉ k.column.toList ∧ ',' ∉ k.column.toList

/-- An expression with plain names and plain operators. -/
structure Expr.Plain (e : Expr) : Prop where
  tables : ∀ name ∈ e.tables, IsPlainName name
  layers : ∀ l ∈ e.layers, l.Plain

instance (name : String) : Decidable (IsPlainName name) :=
  inferInstanceAs (Decidable (_ ∧ _))

instance : (l : Layer) → Decidable l.Plain
  | .join .. => inferInstanceAs (Decidable (_ ∉ _))
  | .select _ | .group _ | .project _ | .sort _ => inferInstanceAs (Decidable (_ ∧ _))

instance (e : Expr) : Decidable e.Plain :=
  decidable_of_iff ((∀ name ∈ e.tables, IsPlainName name) ∧ ∀ l ∈ e.layers, l.Plain)
    ⟨fun h => ⟨h.1, h.2⟩, fun h => ⟨h.tables, h.layers⟩⟩

/-- The operator with the condition of a join collapsed. -/
def Layer.collapseCondition : Layer → Layer
  | join kind condition right => join kind (Expr.collapseBlanks condition) right
  | l => l

/-- The expression with every condition of a join collapsed. -/
def Expr.collapseConditions : Expr → Expr
  | relation name => relation name
  | product tables => product tables
  | join kind condition left right =>
    join kind (collapseBlanks condition) left.collapseConditions right
  | select predicates input => select predicates input.collapseConditions
  | group columns input => group columns input.collapseConditions
  | project columns input => project columns input.collapseConditions
  | sort keys input => sort keys input.collapseConditions

/-- A header shows the condition with its blanks collapsed. -/
@[simp]
theorem Layer.header_collapseCondition (l : Layer) : l.collapseCondition.header = l.header := by
  cases l with
  | join kind condition right =>
    simp [collapseCondition, header, subscript, symbol, Expr.collapseBlanks,
      Text.collapse_collapse]
  | _ => rfl

@[simp]
theorem Layer.right?_collapseCondition (l : Layer) : l.collapseCondition.right? = l.right? := by
  cases l <;> rfl

/-- The conditions of an expression are collapsed operator by operator. -/
theorem Expr.collapseConditions_above (l : Layer) (e : Expr) :
    (l.above e).collapseConditions = l.collapseCondition.above e.collapseConditions := by
  cases l <;> rfl

/-- A plain expression is plain in all of its parts. -/
theorem Expr.Plain.above {l : Layer} {e : Expr} (h : (l.above e).Plain) :
    l.Plain ∧ e.Plain ∧ ∀ right ∈ l.right?, IsPlainName right := by
  obtain ⟨hlayer, htables, hlayers, hright⟩ := forall_mem_above h.tables h.layers
  exact ⟨hlayer, ⟨htables, hlayers⟩, hright⟩

/-! ## Subscripts -/

/-- A key of a sort is told by its text. -/
theorem SortKey.eq_of_text_eq {k k' : SortKey} (h : k.text = k'.text) : k = k' := by
  have hchars := congrArg (fun text => text.toList.reverse) h
  rcases k with ⟨column, direction⟩
  rcases k' with ⟨column', direction'⟩
  cases direction <;> cases direction' <;>
    simp [SortKey.text, Direction.keyword, String.toList_inj] at hchars
  all_goals rw [hchars]

/-- The text of a key has only letters and a space behind the column. -/
theorem SortKey.mem_text {k : SortKey} {c : Char} (h : c ∈ k.text.toList) :
    c ∈ k.column.toList ∨ c ∈ [' ', 'A', 'S', 'C', 'D', 'E'] := by
  rcases k with ⟨column, direction⟩
  cases direction <;> simp [SortKey.text, Direction.keyword] at h ⊢ <;> grind

namespace Layer

variable {l l' : Layer}

/-- The entries of a subscript are told by it when they do not hold the separator. -/
theorem eq_of_subscript_texts {sep : String} {entries entries' : List String}
    (front : List Char) (stop : Char) (back : List Char) (hsep : sep.toList = front ++ stop :: back)
    (hfront : stop ∉ front) (hne : entries ≠ []) (hne' : entries' ≠ [])
    (hentries : ∀ x ∈ entries, stop ∉ x.toList) (hentries' : ∀ x ∈ entries', stop ∉ x.toList)
    (h : sep.intercalate entries = sep.intercalate entries') : entries = entries' := by
  have hchars := congrArg String.toList h
  rw [String.toList_intercalate, String.toList_intercalate, hsep] at hchars
  have := Text.eq_of_intercalate front stop back hfront (by simpa using hne) (by simpa using hne')
    (by simpa using hentries) (by simpa using hentries') hchars
  exact (List.map_inj_right fun _ _ => String.toList_injective).1 this

/-- A character of a list of texts stands in a text or in a separator. -/
theorem mem_of_mem_intercalate {sep : String} {entries : List String} {c : Char}
    (h : c ∈ (sep.intercalate entries).toList) : c ∈ sep.toList ∨ ∃ x ∈ entries, c ∈ x.toList := by
  rw [String.toList_intercalate] at h
  rcases Text.mem_of_mem_intercalate h with h | ⟨x, hx, hc⟩
  · exact Or.inl h
  · rcases List.mem_map.1 hx with ⟨entry, hentry, rfl⟩
    exact Or.inr ⟨entry, hentry, hc⟩

/-- The texts that stand in a subscript. -/
def subscriptTexts : Layer → List String
  | join _ condition _ => [condition]
  | select entries | group entries | project entries => entries
  | sort keys => keys.map SortKey.column

/-- A character of a subscript stands in one of its texts or in what is written between them, and
no blank of the condition of a join does. -/
theorem mem_subscript {c : Char} (h : c ∈ l.subscript.toList) :
    c ∈ [' ', ',', '∧', 'A', 'S', 'C', 'D', 'E'] ∨ ∃ x ∈ l.subscriptTexts,
      c ∈ x.toList ∧ (l.right?.isSome = true → Text.isBlank c = false) := by
  have hand : ∀ d ∈ (" " ++ Symbol.conjunction.text ++ " ").toList,
      d ∈ [' ', ',', '∧', 'A', 'S', 'C', 'D', 'E'] := by decide
  have hcomma : ∀ d ∈ ", ".toList, d ∈ [' ', ',', '∧', 'A', 'S', 'C', 'D', 'E'] := by decide
  have hletters : ∀ d ∈ [' ', 'A', 'S', 'C', 'D', 'E'],
      d ∈ [' ', ',', '∧', 'A', 'S', 'C', 'D', 'E'] := by decide
  cases l with
  | join kind condition right =>
    rw [subscript, Expr.collapseBlanks, String.toList_ofList] at h
    rcases Text.mem_of_mem_collapse h with rfl | ⟨hmem, hblank⟩
    · exact Or.inl (by decide)
    · exact Or.inr ⟨condition, List.mem_singleton_self condition, hmem, fun _ => hblank⟩
  | select predicates =>
    rcases mem_of_mem_intercalate h with hsep | ⟨x, hx, hc⟩
    · exact Or.inl (hand c hsep)
    · exact Or.inr ⟨x, hx, hc, nofun⟩
  | group columns | project columns =>
    rcases mem_of_mem_intercalate h with hsep | ⟨x, hx, hc⟩
    · exact Or.inl (hcomma c hsep)
    · exact Or.inr ⟨x, hx, hc, nofun⟩
  | sort keys =>
    rcases mem_of_mem_intercalate h with hsep | ⟨x, hx, hc⟩
    · exact Or.inl (hcomma c hsep)
    · rcases List.mem_map.1 hx with ⟨k, hk, rfl⟩
      rcases SortKey.mem_text hc with hcolumn | hletter
      · exact Or.inr ⟨k.column, List.mem_map_of_mem hk, hcolumn, nofun⟩
      · exact Or.inl (hletters c hletter)

/-- The entries of a plain operator have no closing bracket. -/
theorem Plain.bracket_not_mem_text (h : l.Plain) : ∀ x ∈ l.subscriptTexts, ']' ∉ x.toList := by
  intro x hx
  cases l with
  | join kind condition right =>
    obtain rfl := List.mem_singleton.1 hx
    exact h
  | select predicates => exact (h.2 x hx).1
  | group columns | project columns => exact (h.2 x hx).1
  | sort keys =>
    rcases List.mem_map.1 hx with ⟨k, hk, rfl⟩
    exact (h.2 k hk).1

/-- A plain subscript does not hold the bracket behind it. -/
theorem Plain.bracket_not_mem (h : l.Plain) : ']' ∉ l.subscript.toList := by
  intro hmem
  rcases mem_subscript hmem with hmark | ⟨x, hx, hc, -⟩
  · exact absurd hmark (by decide)
  · exact h.bracket_not_mem_text x hx hc

/-- An operator is told by its symbol and its subscript, a join by its right table too. -/
theorem eq_of_subscript (h : l.Plain) (h' : l'.Plain) (hsymbol : l.symbol = l'.symbol)
    (hsubscript : l.subscript = l'.subscript) (hright : l.right? = l'.right?) :
    l.collapseCondition = l'.collapseCondition := by
  cases l with
  | join kind condition right =>
    cases l' with
    | join kind' condition' right' =>
      obtain rfl := Symbol.join.inj hsymbol
      obtain rfl := Option.some.inj hright
      exact congrArg (join kind · right) hsubscript
    | _ => cases hsymbol
  | select predicates =>
    cases l' with
    | select predicates' =>
      refine congrArg select (eq_of_subscript_texts [' '] _ [' '] rfl ?_ h.1 h'.1
        (fun p hp => (h.2 p hp).2) (fun p hp => (h'.2 p hp).2) hsubscript)
      decide
    | _ => cases hsymbol
  | group columns =>
    cases l' with
    | group columns' =>
      exact congrArg group (eq_of_subscript_texts [] ',' [' '] rfl List.not_mem_nil h.1 h'.1
        (fun c hc => (h.2 c hc).2) (fun c hc => (h'.2 c hc).2) hsubscript)
    | _ => cases hsymbol
  | project columns =>
    cases l' with
    | project columns' =>
      exact congrArg project (eq_of_subscript_texts [] ',' [' '] rfl List.not_mem_nil h.1 h'.1
        (fun c hc => (h.2 c hc).2) (fun c hc => (h'.2 c hc).2) hsubscript)
    | _ => cases hsymbol
  | sort keys =>
    cases l' with
    | sort keys' =>
      have hcomma : ∀ {ks : List SortKey}, (sort ks).Plain → ∀ x ∈ ks.map SortKey.text,
          ',' ∉ x.toList := by
        intro ks hks x hx hmem
        rcases List.mem_map.1 hx with ⟨k, hk, rfl⟩
        rcases SortKey.mem_text hmem with hmem | hletter
        · exact (hks.2 k hk).2 hmem
        · exact absurd hletter (by decide)
      have htexts := eq_of_subscript_texts [] ',' [' '] rfl List.not_mem_nil (by simpa using h.1)
        (by simpa using h'.1) (hcomma h) (hcomma h') hsubscript
      exact congrArg sort ((List.map_inj_right fun _ _ => SortKey.eq_of_text_eq).1 htexts)
    | _ => cases hsymbol

end Layer

namespace Expr

/-! ## The characters of the form -/

/-- The characters of a product in front of a text. -/
theorem toList_product_append (tables : List String) (r : List Char) :
    (product tables).oneLine.toList ++ r =
      '(' :: ([' ', '×', ' '].intercalate (tables.map String.toList) ++ ')' :: r) := by
  simp [oneLine, Symbol.text, Symbol.glyph]

/-- The characters of an operator with one operand in front of a text. -/
theorem toList_operator_append {l : Layer} (h : l.right? = none) (e : Expr) (r : List Char) :
    (l.above e).oneLine.toList ++ r =
      l.symbol.glyph :: '[' ::
        (l.subscript.toList ++ ']' :: '(' :: (e.oneLine.toList ++ ')' :: r)) := by
  rw [oneLine_above, h]
  simp [Layer.toList_header]

/-- The characters of a join in front of a text. -/
theorem toList_join_append {l : Layer} {right : String} (h : l.right? = some right) (e : Expr)
    (r : List Char) :
    (l.above e).oneLine.toList ++ r =
      '(' :: (e.oneLine.toList ++ ' ' :: l.symbol.glyph :: '[' ::
        (l.subscript.toList ++ ']' :: ' ' :: (right.toList ++ ')' :: r))) := by
  rw [oneLine_above, h]
  simp [Layer.toList_header]

/-! ## The outermost node -/

/-- How an expression starts. -/
inductive Shape where
  | relation
  | product
  | join
  /-- An operator in front of its input. -/
  | operator
deriving DecidableEq

/-- The shape of an expression. -/
def shape : Expr → Shape
  | .relation _ => .relation
  | .product _ => .product
  | .join .. => .join
  | _ => .operator

/-- The shape that the start of a text shows.  In front of the first mark inside its parentheses, a
product has only names, and a join has the start of its left operand. -/
def shapeOf : List Char → Shape
  | '(' :: cs => if cs.find? isMark = some ')' then .product else .join
  | cs => if (cs.dropWhile isNameChar).head? = some '[' then .operator else .relation

/-- What may stand behind an expression in a longer form. -/
def Closes (r : List Char) : Prop :=
  ∀ c ∈ r.head?, c = ' ' ∨ c = ')'

theorem closes_cons {c : Char} (r : List Char) (h : c = ' ' ∨ c = ')') : Closes (c :: r) := by
  rintro d hd
  obtain rfl := Option.some.inj hd
  exact h

theorem closes_nil : Closes [] := by
  simp [Closes]

/-- No character that closes an expression could stand in a name. -/
theorem Closes.isNameChar {r : List Char} (h : Closes r) : ∀ c ∈ r.head?, isNameChar c = false := by
  intro c hc
  rcases h c hc with rfl | rfl <;> decide

theorem shape_above (l : Layer) (e : Expr) :
    (l.above e).shape = if l.right?.isSome then .join else .operator := by
  cases l <;> rfl

/-- A character that could stand in a name is no mark. -/
theorem isMark_of_isNameChar {c : Char} (h : isNameChar c = true) : isMark c = false := by
  rw [isNameChar, Bool.and_eq_true] at h
  simpa using h.2

/-- A product of plain tables has no mark between its parentheses. -/
theorem isMark_product {tables : List String} (h : ∀ name ∈ tables, IsPlainName name) :
    ∀ c ∈ [' ', '×', ' '].intercalate (tables.map String.toList), isMark c = false := by
  intro c hc
  rcases Text.mem_of_mem_intercalate hc with hc | ⟨x, hx, hc⟩
  · have hall : ∀ d ∈ [' ', '×', ' '], isMark d = false := by decide
    exact hall c hc
  · rcases List.mem_map.1 hx with ⟨name, hname, rfl⟩
    exact isMark_of_isNameChar ((h name hname).2 c hc)

/-- The first mark of an expression opens something. -/
theorem find?_oneLine_ne {e : Expr} (h : ∀ name ∈ e.tables, IsPlainName name) :
    e.oneLine.toList.find? isMark ≠ some ')' := by
  cases e using layerInduction with
  | relation name =>
    have hname := h name (by simp [tables])
    rw [oneLine, List.find?_eq_none.2 fun c hc => by simp [isMark_of_isNameChar (hname.2 c hc)]]
    simp
  | product tables =>
    rw [← List.append_nil (product tables).oneLine.toList, toList_product_append]
    simp [isMark]
  | above l e _ =>
    rw [← List.append_nil (l.above e).oneLine.toList]
    cases hright : l.right? with
    | none =>
      rw [toList_operator_append hright, List.find?_cons_of_neg (by simp [l.symbol.isMark_glyph])]
      simp [isMark]
    | some right =>
      rw [toList_join_append hright]
      simp [isMark]

/-- A form that starts with a name shows by what follows the name whether it is an operator. -/
theorem shapeOf_append {name r : List Char} (hne : name ≠ [])
    (hname : ∀ c ∈ name, isNameChar c = true) (hr : ∀ c ∈ r.head?, isNameChar c = false) :
    shapeOf (name ++ r) = if r.head? = some '[' then .operator else .relation := by
  have hrest := (List.takeWhile_dropWhile_iff.2 ⟨rfl, hname, hr⟩).2
  rcases List.exists_cons_of_ne_nil hne with ⟨c, cs, rfl⟩
  have hc := hname c (by simp)
  unfold shapeOf
  split
  · rename_i heq
    obtain ⟨rfl, -⟩ := List.cons.inj heq
    exact absurd hc (by decide)
  · rw [hrest]

/-- The start of a form shows the outermost node. -/
theorem shapeOf_oneLine_append {e : Expr} {r : List Char} (h : ∀ name ∈ e.tables, IsPlainName name)
    (hr : Closes r) : shapeOf (e.oneLine.toList ++ r) = e.shape := by
  cases e using layerInduction with
  | relation name =>
    have hname := h name (by simp [tables])
    rw [oneLine, shapeOf_append (by simpa using hname.1) hname.2 hr.isNameChar, if_neg]
    · rfl
    · intro hhead
      rcases hr _ hhead with hc | hc <;> cases hc
  | product tables =>
    have hnone : ([' ', '×', ' '].intercalate (tables.map String.toList)).find? isMark = none :=
      List.find?_eq_none.2 fun c hc => by simp [isMark_product h c hc]
    rw [toList_product_append, shapeOf, List.find?_append, hnone]
    rfl
  | above l e _ =>
    have hinput : ∀ name ∈ e.tables, IsPlainName name := fun name hn => h name (by simp [hn])
    rw [shape_above]
    cases hright : l.right? with
    | none =>
      have hglyph := l.symbol.isNameChar_glyph
      rw [toList_operator_append hright]
      exact shapeOf_append (List.cons_ne_nil l.symbol.glyph []) (by simpa using hglyph)
        (by simp [isNameChar, isMark])
    | some right =>
      rw [toList_join_append hright, shapeOf, List.find?_append, if_neg]
      · rfl
      · cases hfirst : e.oneLine.toList.find? isMark with
        | none =>
          rw [Option.none_or, List.find?_cons_of_neg (by decide),
            List.find?_cons_of_neg (by simp [l.symbol.isMark_glyph])]
          simp [isMark]
        | some c =>
          rw [Option.some_or, ← hfirst]
          exact find?_oneLine_ne hinput

/-! ## Telling an expression -/

/-- The tables of a product are told by their list. -/
theorem eq_of_product {tables tables' : List String} (h : ∀ name ∈ tables, IsPlainName name)
    (h' : ∀ name ∈ tables', IsPlainName name)
    (heq : [' ', '×', ' '].intercalate (tables.map String.toList) =
      [' ', '×', ' '].intercalate (tables'.map String.toList)) : tables = tables' := by
  have hspace : ∀ {names : List String}, (∀ name ∈ names, IsPlainName name) →
      ∀ x ∈ names.map String.toList, ' ' ∉ x := by
    intro names hnames x hx hmem
    rcases List.mem_map.1 hx with ⟨name, hname, rfl⟩
    exact absurd ((hnames name hname).2 ' ' hmem) (by decide)
  have hne : ∀ {name : String} {names : List String}, (∀ n ∈ name :: names, IsPlainName n) →
      [' ', '×', ' '].intercalate ((name :: names).map String.toList) ≠ [] := by
    intro name names hnames
    have hname := (hnames name (by simp)).1
    cases names <;> simp [List.intercalate_cons_cons, hname]
  cases tables with
  | nil =>
    cases tables' with
    | nil => rfl
    | cons name names => exact absurd heq.symm (hne h')
  | cons name names =>
    cases tables' with
    | nil => exact absurd heq (hne h)
    | cons name' names' =>
      have htexts := Text.eq_of_intercalate [] ' ' ['×', ' '] List.not_mem_nil
        (by simp) (by simp) (hspace h) (hspace h') heq
      exact (List.map_inj_right fun _ _ => String.toList_injective).1 htexts

/-- Two texts that start with one form start with expressions of one shape. -/
theorem shape_eq_of_append_eq {e e' : Expr} {r r' : List Char} (he : e.Plain) (he' : e'.Plain)
    (hr : Closes r) (hr' : Closes r') (h : e.oneLine.toList ++ r = e'.oneLine.toList ++ r') :
    e.shape = e'.shape := by
  rw [← shapeOf_oneLine_append he.tables hr, h, shapeOf_oneLine_append he'.tables hr']

variable {l l' : Layer} {e e' : Expr} {r r' : List Char}

/-- What stands in front of the input of an operator tells the operator. -/
theorem operator_append_inj (hl : l.Plain) (hl' : l'.Plain) (hw : l.right? = none)
    (hw' : l'.right? = none)
    (h : (l.above e).oneLine.toList ++ r = (l'.above e').oneLine.toList ++ r') :
    l.collapseCondition = l'.collapseCondition ∧
      e.oneLine.toList ++ ')' :: r = e'.oneLine.toList ++ ')' :: r' := by
  rw [toList_operator_append hw, toList_operator_append hw'] at h
  obtain ⟨hglyph, h⟩ := List.cons.inj h
  obtain ⟨hsubscript, h⟩ :=
    Text.eq_of_append_cons hl.bracket_not_mem hl'.bracket_not_mem (List.cons.inj h).2
  exact ⟨Layer.eq_of_subscript hl hl' (Symbol.eq_of_glyph_eq hglyph)
    (String.toList_injective hsubscript) (hw.trans hw'.symm), (List.cons.inj h).2⟩

/-- What stands behind the left operand of a join tells the join. -/
theorem eq_of_join_append {right right' : String} (hl : l.Plain) (hl' : l'.Plain)
    (hw : l.right? = some right) (hw' : l'.right? = some right') (hname : IsPlainName right)
    (hname' : IsPlainName right')
    (h : l.symbol.glyph :: '[' :: (l.subscript.toList ++ ']' :: ' ' :: (right.toList ++ ')' :: r)) =
      l'.symbol.glyph :: '[' ::
        (l'.subscript.toList ++ ']' :: ' ' :: (right'.toList ++ ')' :: r'))) :
    l.collapseCondition = l'.collapseCondition ∧ r = r' := by
  have hclose : ∀ r : List Char, ∀ c ∈ (')' :: r).head?, isNameChar c = false :=
    fun r => (closes_cons r (Or.inr rfl)).isNameChar
  obtain ⟨hglyph, h⟩ := List.cons.inj h
  obtain ⟨hsubscript, h⟩ :=
    Text.eq_of_append_cons hl.bracket_not_mem hl'.bracket_not_mem (List.cons.inj h).2
  obtain ⟨hright, hrest⟩ :=
    Text.eq_of_run_append hname.2 hname'.2 (hclose r) (hclose r') (List.cons.inj h).2
  have hsame : l.right? = l'.right? := by rw [hw, hw', String.toList_injective hright]
  exact ⟨Layer.eq_of_subscript hl hl' (Symbol.eq_of_glyph_eq hglyph)
    (String.toList_injective hsubscript) hsame, (List.cons.inj hrest).2⟩

/-- An expression is told by a text that starts with its form, and so is what stands behind. -/
theorem oneLine_append_inj {e e' : Expr} {r r' : List Char} (he : e.Plain) (he' : e'.Plain)
    (hr : Closes r) (hr' : Closes r') (h : e.oneLine.toList ++ r = e'.oneLine.toList ++ r') :
    e.collapseConditions = e'.collapseConditions ∧ r = r' := by
  have hshape := shape_eq_of_append_eq he he' hr hr' h
  induction e using layerInduction generalizing e' r r' with
  | relation name =>
    cases e' using layerInduction with
    | relation name' =>
      have hname := (he.tables name (by simp [tables])).2
      have hname' := (he'.tables name' (by simp [tables])).2
      rcases Text.eq_of_run_append hname hname' hr.isNameChar hr'.isNameChar h with ⟨heq, hrest⟩
      exact ⟨by rw [String.toList_injective heq], hrest⟩
    | product tables' => cases hshape
    | above l' e' _ => cases l' <;> cases hshape
  | product tables =>
    cases e' using layerInduction with
    | relation name' => cases hshape
    | product tables' =>
      rw [toList_product_append, toList_product_append] at h
      have hmark : ∀ {names : List String}, (product names).Plain →
          ∀ c ∈ [' ', '×', ' '].intercalate (names.map String.toList), (!isMark c) = true := by
        intro names hnames c hc
        rw [isMark_product hnames.tables c hc]
        rfl
      rcases Text.eq_of_run_append (hmark he) (hmark he') (by simp [isMark]) (by simp [isMark])
        (List.cons.inj h).2 with ⟨heq, hrest⟩
      have htables : tables = tables' := eq_of_product he.tables he'.tables heq
      exact ⟨by rw [htables], (List.cons.inj hrest).2⟩
    | above l' e' _ => cases l' <;> cases hshape
  | above l e ih =>
    cases e' using layerInduction with
    | relation name' => cases l <;> cases hshape
    | product tables' => cases l <;> cases hshape
    | above l' e' _ =>
      obtain ⟨hl, he, hright⟩ := he.above
      obtain ⟨hl', he', hright'⟩ := he'.above
      rw [shape_above, shape_above] at hshape
      rw [collapseConditions_above, collapseConditions_above]
      cases hw : l.right? with
      | none =>
        cases hw' : l'.right? with
        | some right' => simp [hw, hw'] at hshape
        | none =>
          obtain ⟨hlayer, hinput⟩ := operator_append_inj hl hl' hw hw' h
          have hclose : ∀ r, Closes (')' :: r) := fun r => closes_cons r (Or.inr rfl)
          obtain ⟨hinput, hrest⟩ := ih he he' (hclose r) (hclose r') hinput
            (shape_eq_of_append_eq he he' (hclose r) (hclose r') hinput)
          exact ⟨by rw [hlayer, hinput], (List.cons.inj hrest).2⟩
      | some right =>
        cases hw' : l'.right? with
        | none => simp [hw, hw'] at hshape
        | some right' =>
          rw [toList_join_append hw, toList_join_append hw'] at h
          have hclose : ∀ r, Closes (' ' :: r) := fun r => closes_cons r (Or.inl rfl)
          have hleft := (List.cons.inj h).2
          obtain ⟨hleft, hrest⟩ := ih he he' (hclose _) (hclose _) hleft
            (shape_eq_of_append_eq he he' (hclose _) (hclose _) hleft)
          obtain ⟨hlayer, hrest⟩ := eq_of_join_append hl hl' hw hw' (hright right hw)
            (hright' right' hw') (List.cons.inj hrest).2
          exact ⟨by rw [hlayer, hleft], hrest⟩

/-! ## Expressions with one form -/

/-- The one-line form shows conditions with their blanks collapsed. -/
theorem oneLine_collapseConditions (e : Expr) : e.collapseConditions.oneLine = e.oneLine := by
  induction e using layerInduction with
  | relation name => rfl
  | product tables => rfl
  | above l e ih =>
    rw [collapseConditions_above, oneLine_above, oneLine_above, ih, l.header_collapseCondition,
      l.right?_collapseCondition]

/-- Two plain expressions have one form exactly when they are the same up to the blanks in their
conditions of joins. -/
theorem oneLine_eq_iff {e e' : Expr} (he : e.Plain) (he' : e'.Plain) :
    e.oneLine = e'.oneLine ↔ e.collapseConditions = e'.collapseConditions := by
  constructor
  · intro h
    exact (oneLine_append_inj he he' closes_nil closes_nil (by rw [h])).1
  · intro h
    rw [← oneLine_collapseConditions e, h, oneLine_collapseConditions]

/-- An expression with every operator, in which a join has the condition given. -/
def ofCondition (condition : String) : Expr :=
  .sort [⟨"n", .descending⟩] (.project ["n", "COUNT(*)"] (.select ["COUNT(*) > 1"] (.group ["n"]
    (.select ["a (+) b", "x = '('"] (.join .left condition (.product ["A", "×", "σ"]) "C")))))

/-- Blanks in the condition of a join are not seen in the form. -/
theorem oneLine_eq_iff_ofCondition :
    Plain (ofCondition "A.c  =\n (C.id)") ∧ Plain (ofCondition " A.c = (C.id)") ∧
      ((ofCondition "A.c  =\n (C.id)").oneLine = (ofCondition " A.c = (C.id)").oneLine ↔
        (ofCondition "A.c  =\n (C.id)").collapseConditions =
          (ofCondition " A.c = (C.id)").collapseConditions) :=
  ⟨by decide, by decide, oneLine_eq_iff (by decide) (by decide)⟩

end Expr

end SelectAlgebra
