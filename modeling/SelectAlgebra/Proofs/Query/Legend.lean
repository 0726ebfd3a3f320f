import SelectAlgebra.Proofs.Expr.Legend
import SelectAlgebra.Proofs.Query.LineBreak
import SelectAlgebra.Proofs.Query.Provenance

/-!
# The legend of a query

The entries of a query are made of characters of its text and of spaces, so a text without glyphs
gives entries without glyphs.  A query that a text asks has a product of two tables or none, and no
list of predicates with two entries.  So its legend lists the symbols of its operators.

Main results:

- Theorem `Query.mem_text_of_mem_entry`: which characters an entry of a query can have.
- Theorem `Query.legend_eq_symbols`: the legend lists the symbols of the nodes, and no other.
-/

namespace SelectAlgebra

/-! ## Characters of a text -/

namespace Comment

/-- Taking comments out adds spaces and nothing else. -/
theorem mem_of_mem_stripFrom {m : Mode} {cs : List Char} {c : Char} (h : c ∈ stripFrom m cs) :
    c = ' ' ∨ c ∈ cs := by
  fun_induction stripFrom m cs with
  | case1 => exact Or.inl (by simpa using h)
  | case2 => simp at h
  | _ => grind

end Comment

namespace Run

/-- A character of a run: it stands in a token of the run or in front of one. -/
def Holds (r : Run) (c : Char) : Prop :=
  ∃ p ∈ r, c ∈ p.source

/-- A character of a part of a run is one of the run. -/
theorem Holds.mono {r s : Run} {c : Char} (h : r.Holds c) (hs : r ⊆ s) : s.Holds c := by
  obtain ⟨p, hp, hc⟩ := h
  exact ⟨p, hs hp, hc⟩

/-- A statement is made of the characters of its text and of spaces. -/
theorem mem_of_holds_ofText {cs : List Char} {c : Char} (h : (ofText cs).Holds c) :
    c = ' ' ∨ c ∈ cs := by
  obtain ⟨p, hp, hc⟩ := h
  have hlexeme := mem_toLexeme_of_place (List.takeWhile_subset _ hp)
  rcases Lexeme.exists_blank_rest (Comment.strip cs) with ⟨blank, -, hsource⟩
  refine Comment.mem_of_mem_stripFrom (m := .code) ?_
  change c ∈ Comment.strip cs
  rw [hsource]
  exact List.mem_append_left _ (List.mem_flatMap.2 ⟨p.toLexeme, hlexeme, hc⟩)

/-- A character of the text of a run is one of the run. -/
theorem holds_of_mem_text {r : Run} {c : Char} (h : c ∈ text r) : r.Holds c := by
  cases r with
  | nil => cases h
  | cons p ps =>
    rw [text, List.mem_append, List.mem_flatMap] at h
    rcases h with h | ⟨q, hq, hc⟩
    · exact ⟨p, by simp, List.mem_append_right _ h⟩
    · exact ⟨q, by simp [hq], hc⟩

/-- A character of an entry is one of the run that it is read from. -/
theorem EntryOf.holds {part : Run} {entry : String} {c : Char} (h : EntryOf part entry)
    (hc : c ∈ entry.toList) : part.Holds c := by
  cases h with
  | whole _ => exact holds_of_mem_text (by simpa using hc)
  | firstWord hw =>
    rw [String.toList_ofList] at hc
    exact holds_of_mem_text (Text.mem_of_mem_words (List.mem_of_head? hw) hc)

/-- A character of entries that are in turn is one of the run. -/
theorem InTurn.holds {r : Run} {entries : List String} (h : InTurn r entries) :
    ∀ entry ∈ entries, ∀ c ∈ entry.toList, r.Holds c := by
  induction h with
  | nil r => simp
  | @cons front part rest entry entries hentry _ ih =>
    intro e he c hc
    rcases List.mem_cons.1 he with rfl | he
    · exact (hentry.holds hc).mono fun p hp => by simp [hp]
    · exact (ih e he c hc).mono fun p hp => by simp [hp]

end Run

namespace SelectItem

/-- Passing a gap on adds no character. -/
theorem holds_of_holds_withGap {p : Placed} {r : Run} {c : Char}
    (h : (withGap p.gap r).Holds c) : Run.Holds (p :: r) c := by
  obtain ⟨q, hq, hc⟩ := h
  cases r with
  | nil => cases hq
  | cons x xs =>
    rcases List.mem_cons.1 hq with rfl | hq
    · rcases List.mem_append.1 hc with hgap | htoken
      · exact ⟨p, by simp, List.mem_append_left _ hgap⟩
      · exact ⟨x, by simp, List.mem_append_right _ htoken⟩
    · exact ⟨q, by simp [hq], hc⟩

/-- Taking the qualifiers away adds no character. -/
theorem holds_of_holds_unqualify {r : Run} {c : Char} (h : (unqualify r).Holds c) : r.Holds c := by
  fun_induction unqualify r with
  | case1 p d q r hq ih =>
    obtain ⟨x, hx, hc⟩ := holds_of_holds_withGap h
    rcases List.mem_cons.1 hx with rfl | hx
    · exact ⟨x, by simp, hc⟩
    · exact (ih ⟨x, hx, hc⟩).mono fun y hy => List.mem_cons_of_mem p (List.mem_cons_of_mem d hy)
  | case2 p d q r hq ih =>
    obtain ⟨x, hx, hc⟩ := h
    rcases List.mem_cons.1 hx with rfl | hx
    · exact ⟨x, by simp, hc⟩
    · exact (ih ⟨x, hx, hc⟩).mono (List.subset_cons_self p _)
  | case3 r => exact h

/-- A character of a column is one of the item. -/
theorem holds_of_mem_column {item : Run} {c : Char} (h : c ∈ column item) : item.Holds c :=
  (holds_of_holds_unqualify (Run.holds_of_mem_text h)).mono (operand_subset item)

end SelectItem

namespace Query

/-- An entry of a query is made of characters of its text and of spaces. -/
theorem mem_text_of_mem_entry {text : String} {q : Query} (h : ofText? text = some q) {x : String}
    (hx : x ∈ q.columns ∨ x ∈ q.verbatim.flatten) {c : Char} (hc : c ∈ x.toList) :
    c = ' ' ∨ c ∈ text.toList := by
  rcases exists_outline_of_ofText? h with ⟨-, o, ho⟩
  refine Run.mem_of_holds_ofText ?_
  rcases hx with hx | hx
  · rw [(shape_of_ofParts? (solid_parts o).1 ho).2.2.2.2] at hx
    rcases List.mem_map.1 hx with ⟨item, hitem, rfl⟩
    rw [String.toList_ofList] at hc
    exact (SelectItem.holds_of_mem_column hc).mono fun p hp =>
      o.mem_run (Or.inl ((Run.mem_items hitem).2 p hp).1)
  · rcases List.mem_flatten.1 hx with ⟨entries, hentries, hmem⟩
    have hturn := (inTurn_ofParts? ho hentries).within o.infix_behindFrom
    exact hturn.holds x hmem c hc

/-! ## What the expression of a query is made of -/

/-- The texts of the expression of a query are entries of the query. -/
theorem mem_of_mem_entries_toExpr {q : Query} {x : String} (hx : x ∈ q.toExpr.entries) :
    x ∈ q.columns ∨ x ∈ q.verbatim.flatten := by
  rw [Expr.entries, layers_toExpr, bottom_toExpr, tables_base, flatMap_layers] at hx
  simp only [Layer.entries, Layer.subscriptTexts, Layer.right?, Layer.ofJoin, List.mem_append,
    List.mem_ite_nil_left, List.mem_flatMap, List.mem_reverse, List.mem_singleton,
    Option.toList_none, Option.toList_some, List.append_nil] at hx
  simp only [verbatim, Join.entries, List.flatten_cons, List.mem_append, List.mem_flatMap,
    List.mem_cons]
  rcases hx with hx | ⟨-, hx⟩ | ⟨-, hx⟩ | ⟨-, hx⟩ | ⟨-, hx⟩ | ⟨-, hx⟩ | ⟨j, hj, hx | hx⟩
  · exact Or.inr (Or.inl hx)
  · simp [hx]
  · exact Or.inl hx
  · simp [hx]
  · simp [hx]
  · simp [hx]
  · exact Or.inr (Or.inr (Or.inl ⟨j, hj, Or.inr (Or.inl hx)⟩))
  · exact Or.inr (Or.inr (Or.inl ⟨j, hj, Or.inl hx⟩))

/-- A selection of a query that a text asks has one predicate. -/
theorem length_predicates_of_mem_layers {q : Query} {predicates : List String}
    (hconditions : q.conditions.length ≤ 1) (hhaving : q.having.length ≤ 1)
    (h : Layer.select predicates ∈ q.layers) : predicates.length ≤ 1 := by
  have hlist : predicates = q.having ∨ predicates = q.conditions := by
    simp only [layers, Layer.unlessEmpty, List.mem_append, List.mem_ite_nil_left,
      List.mem_singleton, List.mem_map, Layer.ofJoin, reduceCtorEq, and_false, exists_false,
      Layer.select.injEq, false_or, or_false] at h
    rcases h with ⟨-, h⟩ | ⟨-, h⟩
    · exact Or.inl h
    · exact Or.inr h
  rcases hlist with rfl | rfl
  · exact hhaving
  · exact hconditions

/-- The base of a query shows the sign of a product exactly when it has it as its own, which it has
when there are two tables. -/
theorem symbol?_base_iff {names : List String} (hne : names ≠ []) {s : Symbol} :
    (Expr.base names).symbol? = some s ↔
      s = .product ∧ ∃ tables, Expr.base names = .product tables ∧ 2 ≤ tables.length := by
  match names with
  | [] => exact absurd rfl hne
  | [name] => simp [Expr.base, Expr.symbol?]
  | x :: y :: names => simp [Expr.base, Expr.symbol?, eq_comm]

/-- The legend of a query that is asked by a text without its glyphs lists the entries for the
symbols that the nodes of its expression write, each once and in the order of the whole legend.
Every node's symbol can be looked up, and the sign between two predicates is not listed. -/
theorem legend_eq_symbols {text : String} {q : Query} (h : ofText? text = some q)
    (hglyphs : ∀ s : Symbol, s.entry.glyph ∉ text.toList) :
    (∀ s, s ∈ Symbol.usedIn q.toExpr.oneLine ↔
      ∃ n ∈ q.toExpr.nodes, n.symbol?.map Symbol.text = some s.entry.text) ∧
    (Symbol.usedIn q.toExpr.oneLine).Sublist Symbol.all ∧
    (Symbol.usedIn q.toExpr.oneLine).Nodup ∧
    (∀ n ∈ q.toExpr.nodes, ∀ s ∈ n.symbol?, Symbol.ofGlyph? s.text = some s) ∧
    .conjunction ∉ Symbol.usedIn q.toExpr.oneLine := by
  rcases exists_outline_of_ofText? h with ⟨-, o, ho⟩
  obtain ⟨htables, -, hconditions, hhaving, -⟩ := shape_of_ofParts? (solid_parts o).1 ho
  have hsilent : ∀ s : Symbol, ∀ x ∈ q.toExpr.entries, s.glyph ∉ x.toList := by
    intro s x hx hc
    rcases mem_text_of_mem_entry h (mem_of_mem_entries_toExpr hx) hc with hspace | htext
    · exact s.glyph_not_mem_punctuation (by simp [hspace])
    · exact hglyphs s (s.entry_glyph ▸ htext)
  have hused : ∀ s, s ∈ Symbol.usedIn q.toExpr.oneLine ↔
      ∃ n ∈ q.toExpr.nodes, n.symbol? = some s := by
    intro s
    have hwrites : ∀ l ∈ q.toExpr.layers, l.Writes s ↔ l.symbol = s := by
      intro l hl
      refine ⟨?_, Or.inl⟩
      rintro (hown | ⟨-, predicates, rfl, htwo⟩)
      · exact hown
      · rw [layers_toExpr] at hl
        have hone := length_predicates_of_mem_layers hconditions hhaving hl
        omega
    rw [Symbol.usedIn, List.mem_filter, List.contains_iff_mem, Symbol.entry_glyph,
      Expr.glyph_mem_oneLine_iff (hsilent s), Expr.exists_node_iff, bottom_toExpr,
      symbol?_base_iff htables, exists_congr fun l => and_congr_right (hwrites l)]
    exact and_iff_right s.mem_all
  refine ⟨fun s => ?_, List.filter_sublist, ?_, ?_, ?_⟩
  · rw [hused]
    simp only [Option.map_eq_some_iff, Symbol.text_eq_entry_text_iff, exists_eq_right]
  · exact (by decide : Symbol.all.Nodup).sublist List.filter_sublist
  · intro n _ s _
    have hall : ∀ t ∈ Symbol.all, Symbol.ofGlyph? t.text = some t := by decide
    exact hall s s.mem_all
  · rw [hused, Expr.exists_node_iff, bottom_toExpr, symbol?_base_iff htables]
    rintro (⟨l, -, hl⟩ | ⟨hs, -⟩)
    · cases l <;> cases hl
    · cases hs

/-- A query with every clause. -/
def everyClause : String :=
  "SELECT a FROM t, u LEFT JOIN v ON x = y WHERE b AND c GROUP BY a HAVING d ORDER BY a"

/-- The legend of a query with every clause. -/
theorem legend_eq_symbols_everyClause :
    (∀ s : Symbol, s.entry.glyph ∉ everyClause.toList) ∧
      ∃ q, ofText? everyClause = some q ∧
        Symbol.usedIn q.toExpr.oneLine =
          [.product, .join .left, .selection, .grouping, .projection, .sort] ∧
        (∃ n ∈ q.toExpr.nodes, n.symbol?.map Symbol.text = some "σ") ∧
        .conjunction ∉ Symbol.usedIn q.toExpr.oneLine := by
  have hall : ∀ c ∈ everyClause.toList, c.toNat < 128 := by decide +kernel
  have hglyphs : ∀ s : Symbol, s.entry.glyph ∉ everyClause.toList := by
    intro s hmem
    have hbeyond : ∀ t ∈ Symbol.all, ¬ t.entry.glyph.toNat < 128 := by decide
    exact hbeyond s s.mem_all (hall _ hmem)
  have hlegend : (ofText? everyClause).map (fun q => Symbol.usedIn q.toExpr.oneLine) =
      some [.product, .join .left, .selection, .grouping, .projection, .sort] := by
    decide +kernel
  obtain ⟨q, hq, hused⟩ := Option.map_eq_some_iff.1 hlegend
  obtain ⟨hiff, -, -, -, hconjunction⟩ := legend_eq_symbols hq hglyphs
  exact ⟨hglyphs, q, hq, hused, (hiff .selection).1 (by simp [hused]), hconjunction⟩

end Query

end SelectAlgebra
