import SelectAlgebra.Proofs.Statement.Break

/-!
# Outlines

An outline says where the parts of a statement stand: a first word, DISTINCT or ALL if one of them
is there, a select list without FROM, the word FROM, a FROM list in which no clause opens, and the
clauses.  A statement whose first word is SELECT has the parts that its outline says.

Main results:

- Theorem `Outline.ofRun?_eq`: the parts of a statement are those of its outline.
- Theorem `Outline.exists_of_ofRun?`: a statement that has parts has an outline.
-/

namespace SelectAlgebra

/-- Where the parts of a statement stand. -/
structure Outline (r : Run) where
  /-- The first lexeme. -/
  opener : Placed
  /-- DISTINCT or ALL, or nothing. -/
  quantifier : Run
  selected : Run
  fromWord : Placed
  sources : Run
  clauses : Run
  run_eq : r = opener :: (quantifier ++ (selected ++ fromWord :: (sources ++ clauses)))
  quantifier_eq :
    (∃ p, quantifier = [p] ∧
        (p.token.isKeyword "DISTINCT" = true ∨ p.token.isKeyword "ALL" = true)) ∨
      (quantifier = [] ∧ ∀ p ∈ selected.head?,
        p.token.isKeyword "DISTINCT" = false ∧ p.token.isKeyword "ALL" = false)
  /-- The first FROM outside parentheses ends the select list. -/
  selected_free : ∀ p ∈ selected, p.isTopKeyword "FROM" = false
  fromWord_eq : fromWord.isTopKeyword "FROM" = true
  /-- The first clause of any kind ends the FROM list. -/
  sources_free : Run.Free (Clause.opensAny Clause.all) sources clauses
  clauses_open : Run.StopsBy (Clause.opensAny Clause.all) clauses

namespace Outline

variable {r : Run}

/-- The quantifier is DISTINCT. -/
def isDistinct (o : Outline r) : Bool :=
  o.quantifier.any (·.token.isKeyword "DISTINCT")

/-- The parts of the statement as the outline says them. -/
def parts (o : Outline r) : Parts :=
  ⟨o.isDistinct, o.selected, o.sources, o.clauses⟩

/-- The quantifier is read off the front of a statement. -/
theorem quantifier_append (o : Outline r) (rest : Run) :
    Parts.quantifier (o.quantifier ++ (o.selected ++ o.fromWord :: rest)) =
      (o.isDistinct, o.selected ++ o.fromWord :: rest) := by
  rcases o.quantifier_eq with ⟨p, hp, hword⟩ | ⟨hnil, hhead⟩
  · rw [isDistinct, hp]
    cases hd : p.token.isKeyword "DISTINCT" with
    | true => simp [Parts.quantifier, hd]
    | false =>
      have ha : p.token.isKeyword "ALL" = true := by simpa [hd] using hword
      simp [Parts.quantifier, hd, ha]
  · rw [isDistinct, hnil]
    cases hsel : o.selected with
    | nil =>
      have hfrom := (Placed.isTopKeyword_iff.1 o.fromWord_eq).2
      simp [Parts.quantifier,
        Token.isKeyword_of_ne hfrom (show _ ≠ Text.lower "DISTINCT".toList by decide),
        Token.isKeyword_of_ne hfrom (show _ ≠ Text.lower "ALL".toList by decide)]
    | cons p ps =>
      rcases hhead p (by simp [hsel]) with ⟨hd, ha⟩
      simp [Parts.quantifier, hd, ha]

/-- The parts of a statement that starts with SELECT are those of its outline. -/
theorem ofRun?_eq (o : Outline r) (h : o.opener.token.isKeyword "SELECT" = true) :
    Parts.ofRun? r = some o.parts := by
  have hlist : Run.breakAt (Run.startsWith "FROM")
      (o.selected ++ o.fromWord :: (o.sources ++ o.clauses)) =
        (o.selected, o.fromWord :: (o.sources ++ o.clauses)) :=
    Run.breakAt_append_eq (Run.free_startsWith_iff.2 o.selected_free)
      (Or.inr (by rw [Run.startsWith_cons, o.fromWord_eq]))
  have hsources := Run.breakAt_append_eq o.sources_free o.clauses_open
  rw [congrArg Parts.ofRun? o.run_eq, Parts.ofRun?, if_pos h, Parts.ofList?, o.quantifier_append]
  simp only [hlist, hsources, parts]

/-- What is split off behind SELECT is DISTINCT, ALL or nothing. -/
theorem quantifier_spec (ps : Run) :
    ∃ qs, ps = qs ++ (Parts.quantifier ps).2 ∧
      (Parts.quantifier ps).1 = qs.any (·.token.isKeyword "DISTINCT") ∧
      ((∃ p, qs = [p] ∧ (p.token.isKeyword "DISTINCT" = true ∨ p.token.isKeyword "ALL" = true)) ∨
        (qs = [] ∧ ∀ p ∈ (Parts.quantifier ps).2.head?,
          p.token.isKeyword "DISTINCT" = false ∧ p.token.isKeyword "ALL" = false)) := by
  cases ps with
  | nil => exact ⟨[], rfl, rfl, Or.inr ⟨rfl, by simp [Parts.quantifier]⟩⟩
  | cons p ps =>
    cases hd : p.token.isKeyword "DISTINCT" with
    | true => exact ⟨[p], by simp [Parts.quantifier, hd], by simp [Parts.quantifier, hd],
        Or.inl ⟨p, rfl, Or.inl hd⟩⟩
    | false =>
      cases ha : p.token.isKeyword "ALL" with
      | true => exact ⟨[p], by simp [Parts.quantifier, hd, ha], by simp [Parts.quantifier, hd, ha],
          Or.inl ⟨p, rfl, Or.inr ha⟩⟩
      | false => exact ⟨[], by simp [Parts.quantifier, hd, ha], by simp [Parts.quantifier, hd, ha],
          Or.inr ⟨rfl, by simp [Parts.quantifier, hd, ha]⟩⟩

/-- A statement that has parts has an outline. -/
theorem exists_of_ofRun? {s : Parts} (h : Parts.ofRun? r = some s) :
    ∃ o : Outline r, o.opener.token.isKeyword "SELECT" = true ∧ o.parts = s := by
  cases r with
  | nil => cases h
  | cons p ps =>
    rw [Parts.ofRun?] at h
    split at h
    · rename_i hp
      rcases quantifier_spec ps with ⟨qs, hps, hdistinct, hqs⟩
      cases hlist : Run.breakAt (Run.startsWith "FROM") (Parts.quantifier ps).2 with
      | mk selected rest =>
        rcases Run.breakAt_eq_iff.1 hlist with ⟨happ, hfree, hstop⟩
        simp only [Parts.ofList?, hlist] at h
        cases rest with
        | nil => cases h
        | cons f afterFrom =>
          cases hsources : Run.breakAt (Clause.opensAny Clause.all) afterFrom with
          | mk sources clauses =>
            rcases Run.breakAt_eq_iff.1 hsources with ⟨happ', hfree', hstop'⟩
            simp only [hsources, Option.some.injEq] at h
            refine ⟨{
              opener := p
              quantifier := qs
              selected := selected
              fromWord := f
              sources := sources
              clauses := clauses
              run_eq := ?_
              quantifier_eq := ?_
              selected_free := ?_
              fromWord_eq := ?_
              sources_free := hfree'
              clauses_open := hstop' }, hp, ?_⟩
            · rw [← happ', ← happ, ← hps]
            · apply hqs.imp_right
              rintro ⟨hnil, hhead⟩
              refine ⟨hnil, fun x hx => hhead x ?_⟩
              rw [happ]
              cases selected with
              | nil => cases hx
              | cons y ys => exact hx
            · exact Run.free_startsWith_iff.1 hfree
            · rcases hstop with hnil | hword
              · cases hnil
              · rwa [Run.startsWith_cons] at hword
            · exact (congrArg (Parts.mk · selected sources clauses) hdistinct.symm).trans h
    · cases h

end Outline

end SelectAlgebra
