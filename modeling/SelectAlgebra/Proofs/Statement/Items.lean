import SelectAlgebra.Proofs.Token.Lexemes
import SelectAlgebra.Statement

/-!
# Items of a comma list

An item is a part of a run between commas that is not empty.  Every lexeme of a text starts with a
character that is no blank, so an item has a text and its text has a first word.

Main results:

- Theorem `mem_items`: the lexemes of an item stand in the list and are no commas.
- Theorem `items_ne_nil_iff`: a list has an item exactly when not all of it is commas.
- Theorem `solid_ofText`: every lexeme of a statement starts with a character that is no blank.
-/

namespace SelectAlgebra

namespace Run

/-! ## Items -/

/-- Every run has a segment. -/
theorem segments_ne_nil (r : Run) : segments r ≠ [] :=
  List.splitOnP_ne_nil _ r

/-- The lexemes of an item stand in the list and are no commas. -/
theorem mem_items {r s : Run} (h : s ∈ items r) :
    s ≠ [] ∧ ∀ p ∈ s, p ∈ r ∧ p.isTop .comma = false := by
  rw [items, List.mem_filter] at h
  exact ⟨by simpa using h.2, fun p hp =>
    ⟨List.mem_of_mem_splitOnP h.1 hp, List.not_sep_of_mem_splitOnP h.1 hp⟩⟩

/-- A list has an item exactly when not all of it is commas outside parentheses. -/
theorem items_ne_nil_iff {r : Run} : items r ≠ [] ↔ ∃ p ∈ r, p.isTop .comma = false := by
  constructor
  · intro h
    rcases List.exists_cons_of_ne_nil h with ⟨s, ss, hs⟩
    rcases mem_items (r := r) (s := s) (by simp [hs]) with ⟨hne, hmem⟩
    rcases List.exists_cons_of_ne_nil hne with ⟨p, ps, rfl⟩
    exact ⟨p, hmem p (by simp)⟩
  · rintro ⟨p, hp, hcomma⟩
    induction r with
    | nil => cases hp
    | cons x r ih =>
      rw [items, segments, List.splitOnP_cons_eq_if_modifyHead]
      split
      · rename_i hx
        rcases List.mem_cons.1 hp with rfl | hp
        · rw [hcomma] at hx
          cases hx
        · simpa [items, segments] using ih hp
      · obtain ⟨v, vs, hs⟩ := List.exists_cons_of_ne_nil (segments_ne_nil r)
        rw [← segments, hs]
        simp

/-! ## Lexemes with a text -/

/-- Every lexeme starts with a character that is no blank. -/
def Solid (r : Run) : Prop :=
  ∀ p ∈ r, ∃ c cs, p.token.text = c :: cs ∧ Text.isBlank c = false

/-- A run with tokens of a solid one is solid. -/
theorem Solid.of_tokens {r s : Run} (h : Solid r) (hs : ∀ p ∈ s, ∃ q ∈ r, q.token = p.token) :
    Solid s := by
  intro p hp
  rcases hs p hp with ⟨q, hq, hqp⟩
  rw [← hqp]
  exact h q hq

/-- A part of a solid run is solid. -/
theorem Solid.of_subset {r s : Run} (h : Solid r) (hs : ∀ p ∈ s, p ∈ r) : Solid s :=
  fun p hp => h p (hs p hp)

/-- A placed token is one of the lexemes. -/
theorem mem_toLexeme_of_place {depth : Nat} {ls : List Lexeme} {p : Placed}
    (h : p ∈ place depth ls) : p.toLexeme ∈ ls := by
  rw [← map_toLexeme_place depth ls]
  exact List.mem_map_of_mem h

/-- Every lexeme of a statement starts with a character that is no blank. -/
theorem solid_ofText (cs : List Char) : Solid (ofText cs) := by
  intro p hp
  have hmem := mem_toLexeme_of_place (List.takeWhile_subset _ hp)
  exact Lexeme.Reads.forall_ofText Lexeme.text_of_next? _ _ hmem

end Run

end SelectAlgebra
