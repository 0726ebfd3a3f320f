import SelectAlgebra.Query
import SelectAlgebra.Statement

/-!
# Clauses

After the FROM list a statement goes on with clauses.  Each clause is opened by a keyword or a
phrase of keywords outside parentheses and reaches to the next clause of those that may follow
it, or to the end of the statement.
-/

namespace SelectAlgebra

/-- The kinds of clause after the FROM list. -/
inductive Clause where
  /-- A join phrase. -/
  | join
  /-- WHERE. -/
  | condition
  /-- GROUP BY. -/
  | grouping
  /-- HAVING. -/
  | having
  /-- ORDER BY. -/
  | ordering
deriving DecidableEq

namespace Clause

/-- Two keywords stand next to each other at the start of the run. -/
def startsWithPair (first second : String) (r : Run) : Bool :=
  Run.startsWith first r && Run.startsWith second r.tail

/-- The kind of join that the first keyword of a phrase other than a bare JOIN names. -/
def joinKind? (r : Run) : Option JoinKind :=
  JoinKind.all.find? fun k => Run.startsWith k.keyword r

/-- The run after the optional OUTER of a join of the kind.  An inner join has no OUTER. -/
def skipOuter (kind : JoinKind) (r : Run) : Run :=
  if kind = .inner then r else Run.skipKeyword "OUTER" r

/-- Reads a join phrase: JOIN alone for an inner join, or the keyword of a kind, an optional
OUTER unless the kind is inner, and JOIN.  Gives the kind and the run after the phrase. -/
def joinPhrase? (r : Run) : Option (JoinKind × Run) :=
  if Run.startsWith "JOIN" r then some (.inner, r.tail)
  else
    match joinKind? r with
    | none => none
    | some kind =>
      let rest := skipOuter kind r.tail
      if Run.startsWith "JOIN" rest then some (kind, rest.tail) else none

/-- A clause of the kind starts where the run starts. -/
def opens : Clause → Run → Bool
  | join, r => (joinPhrase? r).isSome
  | condition, r => Run.startsWith "WHERE" r
  | grouping, r => startsWithPair "GROUP" "BY" r
  | having, r => Run.startsWith "HAVING" r
  | ordering, r => startsWithPair "ORDER" "BY" r

/-- A clause of one of the kinds starts where the run starts. -/
def opensAny (cs : List Clause) (r : Run) : Bool :=
  cs.any (·.opens r)

/-- Every kind of clause. -/
def all : List Clause :=
  [join, condition, grouping, having, ordering]

/-- The kinds of clause that end a clause. -/
def enders : Clause → List Clause
  | join => all
  | condition => [grouping, having, ordering]
  | grouping => [having, ordering]
  | having => [ordering]
  | ordering => []

/-- The number of keywords that open a clause other than a join. -/
def phraseLength : Clause → Nat
  | grouping | ordering => 2
  | _ => 1

/-- What the first clause of the kind holds: the run from its opening phrase to the next clause
that ends it.  Empty when there is no such clause. -/
def body (c : Clause) (r : Run) : Run :=
  let opened := (Run.breakAt c.opens r).2.drop c.phraseLength
  (Run.breakAt (opensAny c.enders) opened).1

/-! ## Small facts -/

/-- Passing over OUTER makes no run longer. -/
theorem skipOuter_length (kind : JoinKind) (r : Run) : (skipOuter kind r).length ≤ r.length := by
  unfold skipOuter
  split
  · exact Nat.le_refl _
  · exact Run.skipKeyword_length "OUTER" r

/-- A join phrase takes at least one lexeme. -/
theorem joinPhrase?_length {r rest : Run} {kind : JoinKind}
    (h : joinPhrase? r = some (kind, rest)) : rest.length < r.length := by
  unfold joinPhrase? at h
  split at h
  · rename_i hj
    have := Run.length_pos_of_startsWith hj
    simp only [Option.some.injEq, Prod.mk.injEq] at h
    rw [← h.2, List.length_tail]
    omega
  · split at h
    · simp at h
    · rename_i k _
      have hk := skipOuter_length k r.tail
      rw [List.length_tail] at hk
      dsimp only at h
      split at h
      · rename_i hj
        have := Run.length_pos_of_startsWith hj
        simp only [Option.some.injEq, Prod.mk.injEq] at h
        rw [← h.2, List.length_tail]
        omega
      · simp at h

end Clause

end SelectAlgebra
