import SelectAlgebra.Statement.Clause

/-!
# Joins

A join is a join phrase, a table, an optional alias, ON and a condition.  A phrase that is not
followed by all of these is passed over, and reading goes on behind the part that was read.

Main results:

- Theorem `readBody_length`: reading never goes back.
- Theorems `ofRun_eq_of_none` and `ofRun_eq_of_some`: how the joins of a run unfold.
-/

namespace SelectAlgebra.Join

/-- The run after an optional alias of a joined table: an optional AS, then a name other than
ON. -/
def skipAlias (r : Run) : Run :=
  match Run.skipKeyword "AS" r with
  | [] => []
  | p :: ps => if p.token.isName && !p.isTopKeyword "ON" then ps else p :: ps

/-- Reads what follows a join phrase.  Gives the join, if it is complete, and the run after what
was read.  The condition reaches to the next clause of any kind. -/
def readBody (kind : JoinKind) (r : Run) : Option Join × Run :=
  match Run.namePath? r with
  | none => (none, r)
  | some (path, afterPath) =>
    let r' := skipAlias afterPath
    if Run.startsWith "ON" r' then
      let split := Run.breakAt (Clause.opensAny (Clause.enders .join)) r'.tail
      if split.1.isEmpty then (none, split.2)
      else (some ⟨kind, String.ofList (Run.text path), String.ofList (Run.text split.1)⟩, split.2)
    else (none, r')

/-! ## Reading does not go back -/

/-- Passing over an alias makes no run longer. -/
theorem skipAlias_length (r : Run) : (skipAlias r).length ≤ r.length := by
  have h := Run.skipKeyword_length "AS" r
  unfold skipAlias
  split
  · simp
  · rename_i p ps hs
    rw [hs, List.length_cons] at h
    split
    · omega
    · simpa using h

/-- What follows a join is no longer than its body. -/
theorem readBody_length (kind : JoinKind) (r : Run) :
    (readBody kind r).2.length ≤ r.length := by
  unfold readBody
  split
  · exact Nat.le_refl _
  · rename_i path afterPath hp
    have h1 := congrArg List.length (Run.namePath?_append hp)
    have h2 := skipAlias_length afterPath
    rw [List.length_append] at h1
    dsimp only
    split
    · have h3 := Run.breakAt_length (Clause.opensAny (Clause.enders .join))
        (skipAlias afterPath).tail
      rw [List.length_tail] at h3
      split <;> dsimp only <;> omega
    · dsimp only
      omega

/-! ## All joins -/

/-- The complete joins of a run, left to right. -/
def ofRun (r : Run) : List Join :=
  match r with
  | [] => []
  | p :: ps =>
    match _h : Clause.joinPhrase? (p :: ps) with
    | none => ofRun ps
    | some (kind, body) =>
      let step := readBody kind body
      step.1.toList ++ ofRun step.2
termination_by r.length
decreasing_by
  · simp
  · have h1 := Clause.joinPhrase?_length (by assumption)
    have h2 := readBody_length kind body
    omega

@[simp]
theorem ofRun_nil : ofRun [] = [] := by
  rw [ofRun]

/-- A lexeme at which no join phrase starts is passed over. -/
theorem ofRun_eq_of_none {p : Placed} {ps : Run} (h : Clause.joinPhrase? (p :: ps) = none) :
    ofRun (p :: ps) = ofRun ps := by
  rw [ofRun]
  split
  · rfl
  · rename_i h'
    rw [h] at h'
    exact absurd h' (by simp)

/-- Behind a join phrase, reading goes on where the body that follows it stops. -/
theorem ofRun_eq_of_some {p : Placed} {ps body : Run} {kind : JoinKind}
    (h : Clause.joinPhrase? (p :: ps) = some (kind, body)) :
    ofRun (p :: ps) = (readBody kind body).1.toList ++ ofRun (readBody kind body).2 := by
  rw [ofRun]
  split
  · rename_i h'
    rw [h] at h'
    exact absurd h' (by simp)
  · rename_i kind' body' h'
    rw [h] at h'
    cases h'
    rfl

end SelectAlgebra.Join
