import SelectAlgebra.Statement.Clause

/-!
# The parts of a statement

A statement that starts with SELECT has a select list, which reaches to FROM, a FROM list, which
reaches to the first clause of any kind, and the clauses.

Main results:

- Theorem `ofRun?_isSome_iff`: a statement has parts exactly when it starts with SELECT and the
  word FROM follows outside parentheses.
-/

namespace SelectAlgebra

/-- The parts of a statement that starts with SELECT. -/
structure Parts where
  /-- DISTINCT stands in front of the select list. -/
  distinct : Bool
  /-- The select list. -/
  selected : Run
  /-- The FROM list. -/
  sources : Run
  /-- Everything from the first clause on. -/
  clauses : Run

namespace Parts

/-- Splits DISTINCT or ALL off the run after SELECT. -/
def quantifier : Run → Bool × Run
  | [] => (false, [])
  | p :: ps =>
    if p.token.isKeyword "DISTINCT" then (true, ps)
    else if p.token.isKeyword "ALL" then (false, ps)
    else (false, p :: ps)

/-- The parts of the statement whose run after SELECT is given. -/
def ofList? (r : Run) : Option Parts :=
  let q := quantifier r
  let list := Run.breakAt (Run.startsWith "FROM") q.2
  match list.2 with
  | [] => none
  | _ :: afterFrom =>
    let sources := Run.breakAt (Clause.opensAny Clause.all) afterFrom
    some ⟨q.1, list.1, sources.1, sources.2⟩

/-- The parts of a statement; none when it does not start with SELECT or has no FROM. -/
def ofRun? : Run → Option Parts
  | [] => none
  | p :: ps => if p.token.isKeyword "SELECT" then ofList? ps else none

/-! ## When a statement has parts -/

/-- A statement is taken apart when it has a FROM outside parentheses. -/
theorem ofList?_isSome_iff (r : Run) :
    (ofList? r).isSome = true ↔ ∃ p ∈ (quantifier r).2, p.isTopKeyword "FROM" = true := by
  have key : ∀ s : Run, (Run.breakAt (Run.startsWith "FROM") s).2 = [] ↔
      ¬ ∃ p ∈ s, p.isTopKeyword "FROM" = true := by
    intro s
    induction s with
    | nil => simp [Run.breakAt]
    | cons p s ih =>
      rw [Run.breakAt]
      by_cases hp : p.isTopKeyword "FROM" = true
      · simp [Run.startsWith, hp]
      · simpa [Run.startsWith, hp] using ih
  unfold ofList?
  dsimp only
  split
  · rename_i h
    simpa using (key _).1 h
  · rename_i h
    simp only [Option.isSome_some, true_iff]
    have hne := mt (key (quantifier r).2).2
    rw [Classical.not_not] at hne
    exact hne (by rw [h]; simp)

/-- A statement has parts exactly when it starts with SELECT and, behind an optional DISTINCT or
ALL, the word FROM follows outside parentheses. -/
theorem ofRun?_isSome_iff (r : Run) :
    (ofRun? r).isSome = true ↔
      ∃ p ps, r = p :: ps ∧ p.token.isKeyword "SELECT" = true ∧
        ∃ f ∈ (quantifier ps).2, f.isTopKeyword "FROM" = true := by
  cases r with
  | nil => simp [ofRun?]
  | cons p ps =>
    unfold ofRun?
    dsimp only
    by_cases hp : p.token.isKeyword "SELECT" = true
    · rw [if_pos hp, ofList?_isSome_iff]
      constructor
      · intro h
        exact ⟨p, ps, rfl, hp, h⟩
      · rintro ⟨p', ps', h, -, hf⟩
        cases h
        exact hf
    · rw [if_neg hp]
      constructor
      · intro h
        cases h
      · rintro ⟨p', ps', h, hp', -⟩
        cases h
        exact absurd hp' hp

end Parts

end SelectAlgebra
