import SelectAlgebra.Proofs.Expr.Unambiguous

/-!
# The symbols in the one-line form

Besides the texts that an expression is made of, its one-line form holds the symbols that its nodes
write: every operator its own, a product the sign between two tables, and a selection the sign
between two predicates.  So when the texts hold no glyph, the form shows which nodes there are.

Main results:

- Theorem `Text.mem_intercalate_iff`: a list shows its separator when it has two entries.
- Theorem `Expr.glyph_mem_oneLine_iff`: which glyphs the form of an expression holds.
-/

namespace SelectAlgebra

/-- A character of the separator that no entry holds stands in a list with two entries. -/
theorem Text.mem_intercalate_iff {sep : String} {c : Char} (hsep : c ∈ sep.toList)
    {entries : List String} (hentries : ∀ x ∈ entries, c ∉ x.toList) :
    c ∈ (sep.intercalate entries).toList ↔ 2 ≤ entries.length := by
  rw [String.toList_intercalate]
  match entries with
  | [] => simp
  | [x] => simpa using hentries
  | x :: y :: entries => simpa using mem_intercalate_of_mem_separator hsep

/-- No glyph is punctuation of the one-line form. -/
theorem Symbol.glyph_not_mem_punctuation (s : Symbol) : s.glyph ∉ ['(', ')', '[', ']', ' '] := by
  have hall : ∀ t ∈ all, t.glyph ∉ ['(', ')', '[', ']', ' '] := by decide
  exact hall s (mem_all s)

/-- The text of a symbol is the one that the legend explains under its entry, and no other. -/
theorem Symbol.text_eq_entry_text_iff {s t : Symbol} : t.text = s.entry.text ↔ t = s := by
  rw [text, Entry.text, entry_glyph]
  exact ⟨fun h => eq_of_glyph_eq (String.singleton_inj.1 h), fun h => by rw [h]⟩

/-! ## What a layer writes -/

namespace Layer

/-- The texts of an operator. -/
def entries (l : Layer) : List String :=
  l.subscriptTexts ++ l.right?.toList

/-- The operator writes the symbol: it is its own, or the sign between two of its predicates. -/
def Writes (s : Symbol) (l : Layer) : Prop :=
  l.symbol = s ∨ s = .conjunction ∧ ∃ predicates, l = .select predicates ∧ 2 ≤ predicates.length

/-- The only glyph in a subscript is the one between two predicates. -/
theorem glyph_mem_subscript_iff {l : Layer} {s : Symbol}
    (h : ∀ x ∈ l.subscriptTexts, s.glyph ∉ x.toList) :
    s.glyph ∈ l.subscript.toList ↔
      s = .conjunction ∧ ∃ predicates, l = .select predicates ∧ 2 ≤ predicates.length := by
  have hand : Symbol.conjunction.glyph ∈ (" " ++ Symbol.conjunction.text ++ " ").toList := by decide
  constructor
  · intro hmem
    have hmarks : ∀ t ∈ Symbol.all, t.glyph ∈ [' ', ',', '∧', 'A', 'S', 'C', 'D', 'E'] →
        t = .conjunction := by decide
    obtain rfl : s = .conjunction := by
      rcases mem_subscript hmem with hmark | ⟨x, hx, hc, -⟩
      · exact hmarks s (Symbol.mem_all s) hmark
      · exact absurd hc (h x hx)
    refine ⟨rfl, ?_⟩
    cases l with
    | join kind condition right =>
      rw [subscript, Expr.collapseBlanks, String.toList_ofList] at hmem
      rcases Text.mem_of_mem_collapse hmem with heq | ⟨hc, -⟩
      · exact absurd heq (by decide)
      · exact absurd hc (h condition (List.mem_singleton_self condition))
    | select predicates =>
      exact ⟨predicates, rfl, (Text.mem_intercalate_iff hand h).1 hmem⟩
    | group columns | project columns =>
      rcases mem_of_mem_intercalate hmem with hcomma | ⟨x, hx, hc⟩
      · exact absurd hcomma (by decide)
      · exact absurd hc (h x hx)
    | sort keys =>
      rcases mem_of_mem_intercalate hmem with hcomma | ⟨x, hx, hc⟩
      · exact absurd hcomma (by decide)
      · rcases List.mem_map.1 hx with ⟨k, hk, rfl⟩
        rcases SortKey.mem_text hc with hcolumn | hletter
        · exact absurd hcolumn (h k.column (List.mem_map_of_mem hk))
        · exact absurd hletter (by decide)
  · rintro ⟨rfl, predicates, rfl, htwo⟩
    exact (Text.mem_intercalate_iff hand h).2 htwo

/-- Besides its texts, an operator shows the symbols that it writes. -/
theorem glyph_mem_header_iff {l : Layer} {s : Symbol}
    (h : ∀ x ∈ l.subscriptTexts, s.glyph ∉ x.toList) :
    s.glyph ∈ l.header.toList ↔ l.Writes s := by
  have hmarks := s.glyph_not_mem_punctuation
  have hown : s.glyph = l.symbol.glyph ↔ l.symbol = s :=
    ⟨fun heq => (Symbol.eq_of_glyph_eq heq).symm, fun heq => by rw [heq]⟩
  rw [toList_header, Writes, ← glyph_mem_subscript_iff h, ← hown]
  simp_all

end Layer

/-! ## What an expression writes -/

namespace Expr

/-- The outermost node of an expression and all nodes below it. -/
def nodes : Expr → List Expr
  | relation name => [relation name]
  | product tables => [product tables]
  | join kind condition left right => join kind condition left right :: left.nodes
  | select predicates input => select predicates input :: input.nodes
  | group columns input => group columns input :: input.nodes
  | project columns input => project columns input :: input.nodes
  | sort keys input => sort keys input :: input.nodes

/-- The texts that an expression is made of. -/
def entries (e : Expr) : List String :=
  e.bottom.tables ++ e.layers.flatMap Layer.entries

@[simp]
theorem nodes_above (l : Layer) (e : Expr) : (l.above e).nodes = l.above e :: e.nodes := by
  cases l <;> rfl

/-- A node with a symbol is an operator or the product at the bottom. -/
theorem exists_node_iff {e : Expr} {s : Symbol} :
    (∃ n ∈ e.nodes, n.symbol? = some s) ↔
      (∃ l ∈ e.layers, l.symbol = s) ∨ e.bottom.symbol? = some s := by
  induction e using layerInduction with
  | relation name => simp [nodes, layers, bottom]
  | product tables => simp [nodes, layers, bottom]
  | above l e ih => simp [ih, or_assoc]

/-- Besides its texts, the form of an expression shows the symbols that its operators write, and the
sign of a product that has two tables. -/
theorem glyph_mem_oneLine_iff {e : Expr} {s : Symbol}
    (h : ∀ x ∈ e.entries, s.glyph ∉ x.toList) :
    s.glyph ∈ e.oneLine.toList ↔ (∃ l ∈ e.layers, l.Writes s) ∨
      s = .product ∧ ∃ tables, e.bottom = .product tables ∧ 2 ≤ tables.length := by
  have hmarks := s.glyph_not_mem_punctuation
  induction e using layerInduction with
  | relation name => simpa [entries, oneLine, layers, bottom, tables] using h
  | product names =>
    have hnames : ∀ x ∈ names, s.glyph ∉ x.toList := by
      simpa [entries, layers, bottom, tables] using h
    have hform : s.glyph ∈ (product names).oneLine.toList ↔
        s.glyph ∈ ((" " ++ Symbol.product.text ++ " ").intercalate names).toList := by
      simp_all [oneLine]
    rw [hform]
    constructor
    · intro hmem
      obtain rfl : s = .product := by
        rcases Layer.mem_of_mem_intercalate hmem with hsep | ⟨x, hx, hc⟩
        · exact Symbol.eq_of_glyph_eq (by simp_all [Symbol.text])
        · exact absurd hc (hnames x hx)
      exact Or.inr ⟨rfl, names, rfl, (Text.mem_intercalate_iff (by decide) hnames).1 hmem⟩
    · rintro (⟨l, hl, -⟩ | ⟨rfl, _, ⟨rfl⟩, htwo⟩)
      · simp [layers] at hl
      · exact (Text.mem_intercalate_iff (by decide) hnames).2 htwo
  | above l e ih =>
    have hlayer : ∀ x ∈ l.subscriptTexts, s.glyph ∉ x.toList := by
      intro x hx
      exact h x (by simp [entries, Layer.entries, hx])
    have hright : ∀ right ∈ l.right?, s.glyph ∉ right.toList := by
      intro right hright
      exact h right (by simp_all [entries, Layer.entries])
    have hinput : ∀ x ∈ e.entries, s.glyph ∉ x.toList := by
      intro x hx
      refine h x ?_
      simp only [entries, List.mem_append, bottom_above, layers_above, List.flatMap_cons] at hx ⊢
      exact hx.imp id Or.inr
    have hform : s.glyph ∈ (l.above e).oneLine.toList ↔
        s.glyph ∈ l.header.toList ∨ s.glyph ∈ e.oneLine.toList := by
      rw [oneLine_above]
      cases hr : l.right? with
      | none => simp_all
      | some right => simp_all [or_comm]
    have hbelow : s.glyph ∈ e.oneLine.toList ↔ _ := ih hinput
    rw [hform, hbelow, Layer.glyph_mem_header_iff hlayer]
    simp [or_assoc]

end Expr

end SelectAlgebra
