import SelectAlgebra.Proofs.Statement.Outline

/-!
# Spans of a statement

A span is a run together with its place, the number of lexemes of the statement in front of it.
The parts of a statement that a query is read from are spans: the items of its lists, and the
bodies of its clauses.

Main results:

- Theorem `Span.map_run_segments`: the spans between commas hold the parts of the run.
- Theorem `Span.map_run_items`: the items of a span hold the items of the run.
-/

namespace SelectAlgebra

/-- A run and the number of lexemes of the statement that stand in front of it. -/
structure Span where
  start : Nat
  run : Run

namespace Span

/-- The number of lexemes of the statement up to the end of the span. -/
def stop (s : Span) : Nat :=
  s.start + s.run.length

/-- The span holds none of the `count` lexemes from place `first` on. -/
def Apart (first count : Nat) (s : Span) : Prop :=
  s.stop ≤ first ∨ first + count ≤ s.start

/-! ## Parts of a span -/

/-- The span in front of the first place from which the test holds. -/
def front (p : Run → Bool) (s : Span) : Span :=
  ⟨s.start, (Run.breakAt p s.run).1⟩

/-- The span from the first place on from which the test holds. -/
def back (p : Run → Bool) (s : Span) : Span :=
  ⟨s.start + (Run.breakAt p s.run).1.length, (Run.breakAt p s.run).2⟩

/-- The span without its first lexemes. -/
def drop (n : Nat) (s : Span) : Span :=
  ⟨s.start + (s.run.take n).length, s.run.drop n⟩

/-- What the first clause of the kind holds. -/
def body (c : Clause) (s : Span) : Span :=
  ((s.back c.opens).drop c.phraseLength).front (Clause.opensAny c.enders)

/-- Consecutive runs as spans, the first of which starts at `start`.  A comma stands between
each two of them. -/
def ofParts (start : Nat) : List Run → List Span
  | [] => []
  | r :: rs => ⟨start, r⟩ :: ofParts (start + r.length + 1) rs

/-- The spans between the commas outside parentheses, empty spans included. -/
def segments (s : Span) : List Span :=
  ofParts s.start (Run.segments s.run)

/-- The items of a comma list: its spans that are not empty. -/
def items (s : Span) : List Span :=
  s.segments.filter fun t => !t.run.isEmpty

/-- The span as the only item of a list, unless it is empty. -/
def whole (s : Span) : List Span :=
  if s.run.isEmpty then [] else [s]

/-! ## The runs of the parts -/

/-- Runs that are given places stay as they are. -/
theorem map_run_ofParts (start : Nat) (rs : List Run) : (ofParts start rs).map run = rs := by
  induction rs generalizing start with
  | nil => rfl
  | cons r rs ih => rw [ofParts, List.map_cons, ih]

/-- The segments of a span are those of its run. -/
theorem map_run_segments (s : Span) : s.segments.map run = Run.segments s.run :=
  map_run_ofParts s.start (Run.segments s.run)

/-- The items of a span are those of its run. -/
theorem map_run_items (s : Span) : s.items.map run = Run.items s.run := by
  rw [Run.items, ← map_run_segments, items, List.filter_map]
  rfl

end Span

namespace Outline

variable {r : Run}

/-- The select list. -/
def selectedSpan (o : Outline r) : Span :=
  ⟨1 + o.quantifier.length, o.selected⟩

/-- The FROM list, which starts behind FROM. -/
def sourcesSpan (o : Outline r) : Span :=
  ⟨o.selectedSpan.stop + 1, o.sources⟩

/-- Everything from the first clause on. -/
def clausesSpan (o : Outline r) : Span :=
  ⟨o.sourcesSpan.stop, o.clauses⟩

end Outline

end SelectAlgebra
