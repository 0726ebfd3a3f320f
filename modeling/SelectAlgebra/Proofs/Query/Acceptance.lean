import SelectAlgebra.Proofs.Comment.Lexemes
import SelectAlgebra.Proofs.Query.Entries
import SelectAlgebra.Proofs.Statement.Outline

/-!
# When a text is a query

A text is a query exactly when its first word is SELECT, comments in front of it not being taken
out, and its statement has an outline with an item in the select list and one in the FROM list.
The clauses behind the FROM list have no say in it.

Main results:

- Theorem `Run.ofText_of_startsWithSelect`: the statement of a text starts with the text's SELECT.
- Theorem `ofText?_eq_ofParts?`: the query of a text is read from the parts of its outline.
- Theorem `ofText?_isSome_iff_outline`: the condition, and how many columns and tables there are.
-/

namespace SelectAlgebra

/-- The first token of the text is the bare word SELECT. -/
def StartsWithSelect (text : String) : Prop :=
  ∃ l, (Lexeme.ofText text.toList).head? = some l ∧ l.token.isKeyword "SELECT" = true

/-! ## The first word -/

/-- A text asks a query when its first token is SELECT. -/
theorem startsWithSelect_iff {text : String} :
    StartsWithSelect text ↔
      (Lexeme.next? text.toList).any (·.1.token.isKeyword "SELECT") = true := by
  rw [StartsWithSelect]
  cases h : Lexeme.next? text.toList with
  | none => simp [Lexeme.ofText_eq_nil h]
  | some r => simp [Lexeme.ofText_eq_cons h]

/-- Comments are taken out of a text that starts with SELECT behind that word only. -/
theorem StartsWithSelect.exists_cons {text : String} (h : StartsWithSelect text) :
    ∃ l ls, Lexeme.ofText (Comment.strip text.toList) = l :: ls ∧
      l.token.isKeyword "SELECT" = true := by
  rcases h with ⟨l, hl, hselect⟩
  cases hnext : Lexeme.next? text.toList with
  | none =>
    rw [Lexeme.ofText_eq_nil hnext] at hl
    cases hl
  | some n =>
    rcases n with ⟨l', rest⟩
    rw [Lexeme.ofText_eq_cons hnext, List.head?_cons, Option.some.injEq] at hl
    subst hl
    have hstrip := Lexeme.next?_strip (Token.kind_of_isKeyword hselect) hnext
    exact ⟨l', _, Lexeme.ofText_eq_cons hstrip, hselect⟩

/-- The statement of a text that starts with SELECT starts with that word, which ends no
statement. -/
theorem Run.ofText_of_startsWithSelect {text : String} (h : StartsWithSelect text) :
    ∃ p r, Run.ofText text.toList = p :: r ∧ p.depth = 0 ∧ p.token.isKeyword "SELECT" = true := by
  rcases h.exists_cons with ⟨l, ls, hls, hselect⟩
  have hword := Token.kind_of_isKeyword hselect
  have hkeep : (!(⟨l, 0⟩ : Placed).isTop .semicolon) = true := by
    simp [Placed.isTop, hword]
  rw [Run.ofText, hls, Run.place, hword]
  simp only [List.takeWhile_cons, hkeep, if_true]
  exact ⟨_, _, rfl, rfl, hselect⟩

/-- The first lexeme of an outline of a text that starts with SELECT is that word. -/
theorem Outline.isKeyword_opener {text : String} (h : StartsWithSelect text)
    (o : Outline (Run.ofText text.toList)) : o.opener.token.isKeyword "SELECT" = true := by
  rcases Run.ofText_of_startsWithSelect h with ⟨p, r, hrun, -, hp⟩
  have hopener := (List.cons.inj (hrun.symm.trans o.run_eq)).1
  rwa [← hopener]

/-- The select list and the sources are made of tokens of the run. -/
theorem Outline.mem_run {r : Run} (o : Outline r) {p : Placed}
    (hp : p ∈ o.selected ∨ p ∈ o.sources) : p ∈ r := by
  rw [o.run_eq]
  rcases hp with hp | hp <;> simp [hp]

/-- The FROM list and the clauses stand in one piece. -/
theorem Outline.infix_behindFrom {r : Run} (o : Outline r) :
    o.parts.sources ++ o.parts.clauses <:+: r := by
  refine ⟨o.opener :: (o.quantifier ++ (o.selected ++ [o.fromWord])), [], ?_⟩
  refine Eq.trans ?_ o.run_eq.symm
  simp [parts]

namespace Query

/-! ## Parts that are a query -/

/-- Parts are a query when neither of their lists consists of commas only. -/
theorem ofParts?_isSome_iff {s : Parts} (hselected : s.selected.Solid)
    (hsources : s.sources.Solid) :
    (ofParts? s).isSome = true ↔
      (∃ p ∈ s.selected, p.isTop .comma = false) ∧ ∃ p ∈ s.sources, p.isTop .comma = false := by
  have hcolumns : (columnsOf s.selected).isEmpty = true ↔ Run.items s.selected = [] := by
    rw [List.isEmpty_iff, ← List.length_eq_zero_iff, length_columnsOf hselected,
      List.length_eq_zero_iff]
  have htables : (tableNames s.clauses (Run.segments s.sources)).isEmpty = true ↔
      Run.items s.sources = [] := by
    rw [List.isEmpty_iff, ← List.length_eq_zero_iff, length_tableNames_segments hsources,
      List.length_eq_zero_iff]
  rw [← Run.items_ne_nil_iff, ← Run.items_ne_nil_iff, ne_eq, ne_eq, ← hcolumns, ← htables,
    ← not_or, ← Bool.or_eq_true]
  unfold ofParts?
  dsimp only
  split <;> rename_i h <;> simp [h]

/-- A query has as many columns and tables as its parts have items. -/
theorem length_of_ofParts? {s : Parts} {q : Query} (hselected : s.selected.Solid)
    (hsources : s.sources.Solid) (h : ofParts? s = some q) :
    q.columns.length = (Run.items s.selected).length ∧
      q.tables.length = (Run.items s.sources).length := by
  unfold ofParts? at h
  dsimp only at h
  split at h
  · cases h
  · obtain rfl := Option.some.inj h
    constructor
    · rw [List.length_map, length_columnsOf hselected]
    · rw [List.length_map, length_tableNames_segments hsources]

/-! ## Texts that are a query -/

/-- A text that starts with SELECT is read as its run is. -/
theorem ofText?_eq_ofRun? {text : String} (h : StartsWithSelect text) :
    ofText? text = ofRun? (Run.ofText text.toList) := by
  rw [ofText?, ofChars?, if_pos (startsWithSelect_iff.1 h)]

/-- The query of a text that starts with SELECT is read from the parts of its outline. -/
theorem ofText?_eq_ofParts? {text : String} (h : StartsWithSelect text)
    (o : Outline (Run.ofText text.toList)) : ofText? text = ofParts? o.parts := by
  rw [ofText?_eq_ofRun? h, ofRun?, o.ofRun?_eq (o.isKeyword_opener h)]
  rfl

/-- The text of a query starts with SELECT and has an outline. -/
theorem exists_outline_of_ofText? {text : String} {q : Query} (h : ofText? text = some q) :
    StartsWithSelect text ∧ ∃ o : Outline (Run.ofText text.toList), ofParts? o.parts = some q := by
  rw [ofText?, ofChars?] at h
  split at h
  · rename_i hselect
    rcases Option.bind_eq_some_iff.1 h with ⟨s, hs, hq⟩
    rcases Outline.exists_of_ofRun? hs with ⟨o, -, rfl⟩
    exact ⟨startsWithSelect_iff.2 hselect, o, hq⟩
  · cases h

/-- The parts of a statement are solid. -/
theorem solid_parts {text : String} (o : Outline (Run.ofText text.toList)) :
    o.parts.selected.Solid ∧ o.parts.sources.Solid :=
  ⟨(Run.solid_ofText _).of_subset fun _ hp => o.mem_run (Or.inl hp),
    (Run.solid_ofText _).of_subset fun _ hp => o.mem_run (Or.inr hp)⟩

/-- A text is a query exactly when its first token is the word SELECT and the statement that is
left of it without comments has a FROM with an item on both sides.  It then has a column for each
item in front of FROM and a table for each item behind it, and whether it is a query does not
depend on the clauses. -/
theorem ofText?_isSome_iff_outline (text : String) :
    ((ofText? text).isSome = true ↔
      StartsWithSelect text ∧ ∃ o : Outline (Run.ofText text.toList),
        (∃ p ∈ o.selected, p.isTop .comma = false) ∧ ∃ p ∈ o.sources, p.isTop .comma = false) ∧
    (∀ q, ofText? text = some q → ∀ o : Outline (Run.ofText text.toList),
      q.columns.length = (Run.items o.selected).length ∧
        q.tables.length = (Run.items o.sources).length) ∧
    ∀ text', StartsWithSelect text → StartsWithSelect text' →
      ∀ (o : Outline (Run.ofText text.toList)) (o' : Outline (Run.ofText text'.toList)),
        o'.selected = o.selected → o'.sources = o.sources →
          (ofText? text').isSome = (ofText? text).isSome := by
  refine ⟨⟨fun h => ?_, ?_⟩, fun q hq o => ?_, fun text' h h' o o' hselected hsources => ?_⟩
  · rcases Option.isSome_iff_exists.1 h with ⟨q, hq⟩
    rcases exists_outline_of_ofText? hq with ⟨hselect, o, ho⟩
    rcases solid_parts o with ⟨h1, h2⟩
    exact ⟨hselect, o, (ofParts?_isSome_iff h1 h2).1 (by simp [ho])⟩
  · rintro ⟨hselect, o, hitems⟩
    rcases solid_parts o with ⟨h1, h2⟩
    rw [ofText?_eq_ofParts? hselect o]
    exact (ofParts?_isSome_iff h1 h2).2 hitems
  · rcases exists_outline_of_ofText? hq with ⟨hselect, -⟩
    rcases solid_parts o with ⟨h1, h2⟩
    rw [ofText?_eq_ofParts? hselect o] at hq
    exact length_of_ofParts? h1 h2 hq
  · rcases solid_parts o with ⟨h1, h2⟩
    rcases solid_parts o' with ⟨h3, h4⟩
    rw [ofText?_eq_ofParts? h o, ofText?_eq_ofParts? h' o', Bool.eq_iff_iff,
      ofParts?_isSome_iff h1 h2, ofParts?_isSome_iff h3 h4]
    simp only [Outline.parts, hselected, hsources]

end Query

end SelectAlgebra
