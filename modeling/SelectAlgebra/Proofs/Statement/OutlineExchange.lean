import SelectAlgebra.Proofs.Statement.Exchange

/-!
# Outlines around exchanged lexemes

The parts of a statement are cut out of the run behind DISTINCT or ALL by the tests for FROM and
for clauses.  So when hidden lexemes behind SELECT are exchanged, the parts are exchanged spans.

Main results:

- Theorem `Outline.exists_exchange`: the exchange leaves a statement that has an outline.
- Theorem `Outline.exchangedParts`: the parts of the two outlines are exchanged.
-/

namespace SelectAlgebra

namespace Parts

/-- What is split off behind SELECT is told by one lexeme, which is a word. -/
theorem quantifier_append {hid : Run} (hhid : hid.Hidden)
    (hhead : ∀ p ∈ hid.head?, p.token.kind ≠ .word) (a b : Run) :
    quantifier (a ++ (hid ++ b)) = ((quantifier a).1, (quantifier a).2 ++ (hid ++ b)) := by
  cases a with
  | nil =>
    cases hid with
    | nil => exact absurd rfl hhid.ne_nil
    | cons p ps =>
      have hp := hhead p rfl
      simp [quantifier, Token.isKeyword, hp]
  | cons p ps =>
    rw [List.cons_append, quantifier, quantifier]
    split
    · rfl
    · split
      · rfl
      · rfl

end Parts

namespace Outline

variable {r hid new a b : Run} {p : Placed}

/-- The select list and all that follows it. -/
def listSpan (o : Outline r) : Span :=
  ⟨1 + o.quantifier.length, o.selected ++ o.fromWord :: (o.sources ++ o.clauses)⟩

/-- The FROM list and the clauses. -/
def behindFrom (o : Outline r) : Span :=
  (o.listSpan.back (Run.startsWith "FROM")).drop 1

/-- The select list is broken off at FROM. -/
theorem breakAt_listSpan (o : Outline r) :
    Run.breakAt (Run.startsWith "FROM") o.listSpan.run =
      (o.selected, o.fromWord :: (o.sources ++ o.clauses)) :=
  Run.breakAt_append_eq (Run.free_startsWith_iff.2 o.selected_free)
    (Or.inr (by rw [Run.startsWith_cons, o.fromWord_eq]))

/-- The span in front of FROM is that of the select list. -/
theorem front_listSpan (o : Outline r) :
    o.listSpan.front (Run.startsWith "FROM") = o.selectedSpan := by
  rw [Span.front, o.breakAt_listSpan]
  rfl

/-- Behind FROM the sources and the clauses stand. -/
theorem behindFrom_eq (o : Outline r) :
    o.behindFrom = ⟨o.selectedSpan.stop + 1, o.sources ++ o.clauses⟩ := by
  rw [behindFrom, Span.back, o.breakAt_listSpan]
  rfl

/-- The span in front of the first clause is that of the sources. -/
theorem front_behindFrom (o : Outline r) :
    o.behindFrom.front (Clause.opensAny Clause.all) = o.sourcesSpan := by
  rw [o.behindFrom_eq, Span.front, Run.breakAt_append_eq o.sources_free o.clauses_open]
  rfl

/-- The span from the first clause on is that of the clauses. -/
theorem back_behindFrom (o : Outline r) :
    o.behindFrom.back (Clause.opensAny Clause.all) = o.clausesSpan := by
  rw [o.behindFrom_eq, Span.back, Run.breakAt_append_eq o.sources_free o.clauses_open]
  rfl

/-- The clauses reach to the end of the statement. -/
theorem stop_clausesSpan (o : Outline r) : o.clausesSpan.stop = r.length := by
  rw [congrArg List.length o.run_eq]
  simp only [clausesSpan, sourcesSpan, selectedSpan, Span.stop, List.length_cons,
    List.length_append]
  omega

/-! ## Exchanging lexemes -/

/-- The parts of one statement become those of another when the lexemes `hid` at place `place` are
exchanged for `new`. -/
structure ExchangedParts {r r' : Run} (hid new : Run) (place : Nat) (o : Outline r)
    (o' : Outline r') : Prop where
  distinct : o'.isDistinct = o.isDistinct
  selected : Exchanged hid new place o.selectedSpan o'.selectedSpan
  sources : Exchanged hid new place o.sourcesSpan o'.sourcesSpan
  clauses : Exchanged hid new place o.clausesSpan o'.clausesSpan

/-- A statement in front of the exchanged lexemes keeps its parts. -/
theorem exchangedParts_self (o : Outline r) {place : Nat} (h : r.length ≤ place) :
    ExchangedParts hid new place o o := by
  have hstop := o.stop_clausesSpan
  have hsources : o.sourcesSpan.stop ≤ o.clausesSpan.stop := Nat.le_add_right _ _
  have hselected : o.selectedSpan.stop ≤ o.sourcesSpan.stop := by
    simp only [sourcesSpan, Span.stop]
    omega
  exact {
    distinct := rfl
    selected := .before (by omega)
    sources := .before (by omega)
    clauses := .before (by omega) }

/-- The list behind the optional DISTINCT or ALL of a statement with hidden lexemes. -/
theorem listSpan_append (o : Outline (p :: a ++ (hid ++ b))) (hhid : hid.Hidden)
    (hhead : ∀ x ∈ hid.head?, x.token.kind ≠ .word) :
    o.isDistinct = (Parts.quantifier a).1 ∧
      o.listSpan.run = (Parts.quantifier a).2 ++ (hid ++ b) ∧
      o.listSpan.start + (Parts.quantifier a).2.length = (p :: a).length := by
  have hrun : a ++ (hid ++ b) =
      o.quantifier ++ (o.selected ++ o.fromWord :: (o.sources ++ o.clauses)) :=
    (List.cons.inj o.run_eq).2
  have hquantifier := o.quantifier_append (o.sources ++ o.clauses)
  rw [← hrun, Parts.quantifier_append hhid hhead] at hquantifier
  rcases Prod.mk.inj hquantifier with ⟨hdistinct, hlist⟩
  refine ⟨hdistinct.symm, hlist.symm, ?_⟩
  have hlength := congrArg List.length hrun
  rw [List.length_append, ← hlist] at hlength
  simp only [List.length_append, List.length_cons, listSpan] at hlength ⊢
  omega

section Exchange

variable (hhid : hid.Hidden) (hnew : new.Hidden)
  (hhead : ∀ x ∈ hid.head?, x.token.kind ≠ .word)
  (hhead' : ∀ x ∈ new.head?, x.token.kind ≠ .word)
include hhid hnew hhead hhead'

/-- The parts of the two outlines are exchanged. -/
theorem exchangedParts (o : Outline (p :: a ++ (hid ++ b))) (o' : Outline (p :: a ++ (new ++ b))) :
    ExchangedParts hid new (p :: a).length o o' := by
  rcases o.listSpan_append hhid hhead with ⟨hdistinct, hrun, hstart⟩
  rcases o'.listSpan_append hnew hhead' with ⟨hdistinct', hrun', hstart'⟩
  have hlist : Exchanged hid new (p :: a).length o.listSpan o'.listSpan := by
    have hsame : o'.listSpan.start = o.listSpan.start := by omega
    have heq : o.listSpan = ⟨o.listSpan.start, (Parts.quantifier a).2 ++ (hid ++ b)⟩ := by
      rw [← hrun]
    have heq' : o'.listSpan = ⟨o.listSpan.start, (Parts.quantifier a).2 ++ (new ++ b)⟩ := by
      rw [← hrun', ← hsame]
    rw [heq, heq']
    exact .around b hstart
  have hkeyed := Run.keyed_startsWith "FROM"
  have hall := Clause.keyed_opensAny Clause.all
  have hfrom : Exchanged hid new (p :: a).length o.behindFrom o'.behindFrom := by
    apply (hlist.back hkeyed hhid hnew).drop hkeyed
    · intro r hr
      exact Run.length_pos_of_startsWith hr
    · exact (Run.breakAt_spec _ _).2
    · exact hhid
  exact {
    distinct := by rw [hdistinct, hdistinct']
    selected := by
      rw [← o.front_listSpan, ← o'.front_listSpan]
      exact hlist.front hkeyed hhid hnew
    sources := by
      rw [← o.front_behindFrom, ← o'.front_behindFrom]
      exact hfrom.front hall hhid hnew
    clauses := by
      rw [← o.back_behindFrom, ← o'.back_behindFrom]
      exact hfrom.back hall hhid hnew }

/-- A statement has an outline also when hidden lexemes behind SELECT are exchanged. -/
theorem exists_exchange (o : Outline (p :: a ++ (hid ++ b)))
    (hselect : p.token.isKeyword "SELECT" = true) : Nonempty (Outline (p :: a ++ (new ++ b))) := by
  rcases o.listSpan_append hhid hhead with ⟨-, hrun, -⟩
  have hmem : o.fromWord ∈ (Parts.quantifier a).2 ++ (hid ++ b) := by
    rw [← hrun]
    simp [listSpan]
  have hnot : o.fromWord ∉ hid := by
    intro h
    have := (hhid.hidden _ h).isTopKeyword "FROM"
    rw [o.fromWord_eq] at this
    cases this
  have hmem' : o.fromWord ∈ (Parts.quantifier (a ++ (new ++ b))).2 := by
    rw [Parts.quantifier_append hnew hhead']
    simp only [List.mem_append] at hmem ⊢
    rcases hmem with h | h | h
    · exact Or.inl h
    · exact absurd h hnot
    · exact Or.inr (Or.inr h)
  have hsome : (Parts.ofRun? (p :: a ++ (new ++ b))).isSome = true := by
    rw [Parts.ofRun?_isSome_iff]
    exact ⟨p, a ++ (new ++ b), rfl, hselect, o.fromWord, hmem', o.fromWord_eq⟩
  rcases Option.isSome_iff_exists.1 hsome with ⟨s, hs⟩
  rcases exists_of_ofRun? hs with ⟨o', -, -⟩
  exact ⟨o'⟩

end Exchange

end Outline

end SelectAlgebra
