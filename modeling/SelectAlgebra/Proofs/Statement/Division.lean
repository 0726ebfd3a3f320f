import Mathlib.Logic.ExistsUnique
import SelectAlgebra.Proofs.Checked.Query
import SelectAlgebra.Proofs.Statement.Partners

/-!
# Division of a range

The commas outside parentheses divide the places of a range: the ranges between them that are not
empty follow each other, hold no such comma, and every other place of the range is in exactly one of
them.  A range that holds no comma is divided into itself, and ranges on both sides of a comma are
divided one behind the other, so the items of a comma list divide the range of the list.

Main results:

- Theorem `DividedInto.behind_comma`: a range is divided part by part.
- Theorem `dividedInto_items`: the items of a comma list divide the range in which it stands.
- Theorem `Run.places_divided`: depths count the open parentheses, and every range of a statement is
  divided into the items that are read from it.
-/

namespace SelectAlgebra

namespace Run

/-- The lexemes of the run from the first place of a range up to the second. -/
def between (r : Run) (range : Nat × Nat) : Run :=
  (r.take range.2).drop range.1

/-- A comma outside parentheses stands at the place. -/
def commaAt (r : Run) (i : Nat) : Bool :=
  r[i]?.any (·.isTop .comma)

/-- The ranges of the items between the commas of a range. -/
def itemRanges (r : Run) (start stop : Nat) : List (Nat × Nat) :=
  (Span.items ⟨start, r.between (start, stop)⟩).map Span.ends

/-- The ranges are what the commas outside parentheses leave of the places from `start` up to
`stop`. -/
structure DividedInto (r : Run) (start stop : Nat) (ranges : List (Nat × Nat)) : Prop where
  nonempty : ∀ t ∈ ranges, t.1 < t.2
  within : ∀ t ∈ ranges, start ≤ t.1 ∧ t.2 ≤ stop
  /-- The ranges are disjoint and stand in increasing order. -/
  increasing : ranges.Pairwise fun t u => t.2 ≤ u.1
  no_comma : ∀ t ∈ ranges, ∀ i, t.1 ≤ i → i < t.2 → r.commaAt i = false
  /-- Every place that holds no comma is in exactly one of the ranges. -/
  covered : ∀ i, start ≤ i → i < stop → r.commaAt i = false →
    ∃! t, t ∈ ranges ∧ t.1 ≤ i ∧ i < t.2
  /-- A range reaches to the commas around it. -/
  maximal : ∀ t ∈ ranges, (t.1 = start ∨ r.commaAt (t.1 - 1) = true) ∧
    (t.2 = stop ∨ r.commaAt t.2 = true)

variable {r s piece rest : Run} {p : Placed} {start middle stop i : Nat}
  {ranges others : List (Nat × Nat)}

/-! ## Division part by part -/

/-- An empty range is divided into nothing. -/
theorem dividedInto_nil (h : stop ≤ start) : DividedInto r start stop [] where
  nonempty := by simp
  within := by simp
  increasing := List.Pairwise.nil
  no_comma := by simp
  covered := by
    intro i hstart hstop
    omega
  maximal := by simp

/-- A range that holds no comma is divided into itself. -/
theorem dividedInto_singleton (h : start < stop)
    (hfree : ∀ i, start ≤ i → i < stop → r.commaAt i = false) :
    DividedInto r start stop [(start, stop)] where
  nonempty := by simpa using h
  within := by simp
  increasing := List.pairwise_singleton _ _
  no_comma := by simpa using hfree
  covered := by
    intro i hstart hstop _
    exact ⟨(start, stop), ⟨List.mem_singleton_self _, hstart, hstop⟩, fun t ht =>
      List.mem_singleton.1 ht.1⟩
  maximal := by simp

/-- A range is divided part by part, in front of a comma in it and behind. -/
theorem DividedInto.behind_comma (hfront : DividedInto r start middle ranges)
    (hbehind : DividedInto r (middle + 1) stop others) (hstart : start ≤ middle)
    (hstop : middle < stop) (hcomma : r.commaAt middle = true) :
    DividedInto r start stop (ranges ++ others) where
  nonempty := by
    intro t ht
    exact (List.mem_append.1 ht).elim (hfront.nonempty t) (hbehind.nonempty t)
  within := by
    intro t ht
    rcases List.mem_append.1 ht with ht | ht
    · have := hfront.within t ht
      omega
    · have := hbehind.within t ht
      omega
  increasing := by
    refine List.pairwise_append.2 ⟨hfront.increasing, hbehind.increasing, ?_⟩
    intro t ht u hu
    have hbefore := hfront.within t ht
    have hafter := hbehind.within u hu
    omega
  no_comma := by
    intro t ht
    exact (List.mem_append.1 ht).elim (hfront.no_comma t) (hbehind.no_comma t)
  covered := by
    intro i hi hlast hfree
    have hne : i ≠ middle := by
      rintro rfl
      rw [hcomma] at hfree
      cases hfree
    rcases Nat.lt_or_gt_of_ne hne with hlt | hgt
    · rcases hfront.covered i hi hlt hfree with ⟨t, ht, hunique⟩
      refine ⟨t, ⟨List.mem_append_left _ ht.1, ht.2⟩, ?_⟩
      rintro u ⟨hu, hrange⟩
      rcases List.mem_append.1 hu with hu | hu
      · exact hunique u ⟨hu, hrange⟩
      · have := hbehind.within u hu
        omega
    · rcases hbehind.covered i hgt hlast hfree with ⟨t, ht, hunique⟩
      refine ⟨t, ⟨List.mem_append_right _ ht.1, ht.2⟩, ?_⟩
      rintro u ⟨hu, hrange⟩
      rcases List.mem_append.1 hu with hu | hu
      · have := hfront.within u hu
        omega
      · exact hunique u ⟨hu, hrange⟩
  maximal := by
    intro t ht
    rcases List.mem_append.1 ht with ht | ht
    · rcases hfront.maximal t ht with ⟨hleft, hright⟩
      refine ⟨hleft, Or.inr ?_⟩
      rcases hright with hright | hright
      · rw [hright, hcomma]
      · exact hright
    · rcases hbehind.maximal t ht with ⟨hleft, hright⟩
      refine ⟨Or.inr ?_, hright⟩
      rcases hleft with hleft | hleft
      · rw [hleft, Nat.add_sub_cancel, hcomma]
      · exact hleft

/-! ## Comma lists -/

/-- A comma stands where the run has one outside parentheses. -/
theorem commaAt_of_drop (hi : r.drop i = p :: rest) : r.commaAt i = p.isTop .comma := by
  rw [commaAt, ← List.head?_drop, hi]
  rfl

/-- No comma stands in a piece that has none outside parentheses. -/
theorem commaAt_eq_false (hi : r.drop start = piece ++ rest)
    (hpiece : ∀ p ∈ piece, p.isTop .comma = false) :
    ∀ i, start ≤ i → i < start + piece.length → r.commaAt i = false := by
  intro i hstart hstop
  obtain ⟨k, rfl⟩ := Nat.exists_eq_add_of_le hstart
  have hk : k < piece.length := by omega
  have hget : r[start + k]? = some piece[k] := by
    rw [← List.getElem?_drop, hi, List.getElem?_append_left hk, List.getElem?_eq_getElem hk]
  rw [commaAt, hget, Option.any_some, hpiece _ (List.getElem_mem hk)]

/-- A part of a comma list that holds no comma is divided into itself, unless it is empty. -/
theorem dividedInto_whole (hi : r.drop start = piece ++ rest)
    (hpiece : ∀ p ∈ piece, p.isTop .comma = false) :
    DividedInto r start (start + piece.length) ((Span.whole ⟨start, piece⟩).map Span.ends) := by
  cases piece with
  | nil => exact dividedInto_nil (Nat.le_refl start)
  | cons p ps =>
    have hlt : start < start + (p :: ps).length := by
      rw [List.length_cons]
      omega
    exact dividedInto_singleton hlt (commaAt_eq_false hi hpiece)

/-- The items of a comma list divide the range in which it stands. -/
theorem dividedInto_items (hi : r.drop start = piece ++ rest) :
    DividedInto r start (start + piece.length) ((Span.items ⟨start, piece⟩).map Span.ends) := by
  induction piece using segmentsInduction generalizing start with
  | one s hone =>
    have hs : ∀ p ∈ s, p.isTop .comma = false := fun p hp =>
      List.not_sep_of_mem_splitOnP (hone ▸ List.mem_singleton_self s : s ∈ segments s) hp
    rw [Span.items_of_one start hone]
    exact dividedInto_whole hi hs
  | more s comma behind hcomma hmore ih =>
    have hs : ∀ p ∈ s, p.isTop .comma = false := fun p hp =>
      List.not_sep_of_mem_splitOnP
        (hmore ▸ List.mem_cons_self : s ∈ segments (s ++ comma :: behind)) hp
    rcases drop_behind hi with ⟨hfirst, hbehind⟩
    have hplace : r.commaAt (start + s.length) = true := by
      rw [commaAt_of_drop (drop_add hfirst), hcomma]
    have hstop : start + (s ++ comma :: behind).length =
        start + s.length + 1 + behind.length := by
      rw [List.length_append, List.length_cons]
      omega
    rw [Span.items_of_more start hmore, List.map_append, hstop]
    exact (dividedInto_whole hfirst hs).behind_comma (ih hbehind) (Nat.le_add_right _ _)
      (by omega) hplace

/-! ## Ranges of a run -/

/-- A range is what stands from its start on, up to its end. -/
theorem between_eq (r : Run) (start stop : Nat) :
    r.between (start, stop) = (r.drop start).take (stop - start) :=
  List.drop_take

/-- A range stands in the run in front of what follows it. -/
theorem drop_eq_between_append (r : Run) (start stop : Nat) :
    r.drop start = r.between (start, stop) ++ (r.drop start).drop (stop - start) := by
  rw [between_eq, List.take_append_drop]

/-- The range of a piece is the piece. -/
theorem between_of_drop (hi : r.drop start = piece ++ rest) :
    r.between (start, start + piece.length) = piece := by
  rw [between_eq, Nat.add_sub_cancel_left, hi, List.take_left]

/-- A range has as many tokens as it is long. -/
theorem length_between (h : stop ≤ r.length) :
    (r.between (start, stop)).length = stop - start := by
  rw [between_eq, List.length_take, List.length_drop]
  omega

/-- An empty range has no items. -/
theorem itemRanges_of_le (h : stop ≤ start) : itemRanges r start stop = [] := by
  rw [itemRanges, between_eq, Nat.sub_eq_zero_of_le h]
  rfl

/-- The items of a range stand in the run at their own ranges. -/
theorem items_between (r : Run) (start stop : Nat) :
    items (r.between (start, stop)) = (itemRanges r start stop).map r.between := by
  rw [itemRanges, List.map_map, ← Span.map_run_items ⟨start, r.between (start, stop)⟩]
  apply List.map_congr_left
  intro t ht
  rw [Span.items, List.mem_filter] at ht
  rcases Span.drop_of_mem_segments (drop_eq_between_append r start stop) ht.1 with ⟨next, hnext⟩
  exact (between_of_drop hnext).symm

/-- The items of a range divide it. -/
theorem dividedInto_itemRanges (start : Nat) (h : stop ≤ r.length) :
    DividedInto r start stop (itemRanges r start stop) := by
  rcases Nat.le_total start stop with hle | hge
  · have hitems := dividedInto_items (drop_eq_between_append r start stop)
    rwa [length_between h, Nat.add_sub_cancel' hle] at hitems
  · rw [itemRanges_of_le hge]
    exact dividedInto_nil hge

/-- A statement that is read with indices is divided at its commas without a fault. -/
theorem splitCommas_eq_itemRanges {st : Checked.Statement} (hst : st.Shows r) (start : Nat)
    (h : stop ≤ r.length) : st.splitCommas start stop = .ok (itemRanges r start stop) := by
  rcases Nat.le_total start stop with hle | hge
  · have hsplit := hst.splitCommas_eq (drop_eq_between_append r start stop)
    rwa [length_between h, Nat.add_sub_cancel' hle] at hsplit
  · rw [itemRanges_of_le hge, Checked.Statement.splitCommas, Nat.sub_eq_zero_of_le hge]
    simp [pure, Except.pure, Nat.not_lt.2 hge]

/-- Depths count the parentheses that are open around a lexeme: partners stand at the same depth,
and a parenthesis that closes and is nobody's partner has no say in the depth of any other lexeme.
The commas at depth 0 divide every range of a run into ranges of its own, in which the items of the
range stand and which a reader with indices finds. -/
theorem places_divided :
    (∀ ls : List Lexeme,
      depths (place 0 ls) = (List.range ls.length).map (Lexeme.openAt ls) ∧
        (∀ i j, Lexeme.ArePartners ls i j →
          (depths (place 0 ls))[i]? = (depths (place 0 ls))[j]?) ∧
        ∀ k, Lexeme.isAt .rightParen ls k = true → (∀ i < k, ¬ Lexeme.ArePartners ls i k) →
          place 0 (ls.eraseIdx k) = (place 0 ls).eraseIdx k) ∧
    ∀ (r : Run) (start stop : Nat), stop ≤ r.length →
      DividedInto r start stop (itemRanges r start stop) ∧
        items (r.between (start, stop)) = (itemRanges r start stop).map r.between ∧
        ∀ st : Checked.Statement, st.Shows r →
          st.splitCommas start stop = .ok (itemRanges r start stop) := by
  constructor
  · intro ls
    refine ⟨depths_place ls, fun i j h => depths_partners h, fun k hk h => ?_⟩
    exact place_eraseIdx hk fun i hi => h i hi.1 hi
  · intro r start stop h
    exact ⟨dividedInto_itemRanges start h, items_between r start stop,
      fun st hst => splitCommas_eq_itemRanges hst start h⟩

/-- A text with a parenthesis that is nobody's partner, a comma inside parentheses and two commas
with nothing between them. -/
def uneven : List Char :=
  "(a, b)), , c;".toList

/-- The parentheses around `a, b` stand at depth 0, the one behind them closes nothing, and the two
commas behind that one leave two items. -/
theorem places_divided_uneven :
    depths (place 0 (Lexeme.ofText uneven)) = [0, 1, 1, 1, 0, 0, 0, 0, 0, 0] ∧
      Lexeme.ArePartners (Lexeme.ofText uneven) 0 4 ∧
      (depths (place 0 (Lexeme.ofText uneven)))[0]? =
        (depths (place 0 (Lexeme.ofText uneven)))[4]? ∧
      (∀ i < 5, ¬ Lexeme.ArePartners (Lexeme.ofText uneven) i 5) ∧
      place 0 ((Lexeme.ofText uneven).eraseIdx 5) =
        (place 0 (Lexeme.ofText uneven)).eraseIdx 5 ∧
      9 ≤ (ofText uneven).length ∧ itemRanges (ofText uneven) 0 9 = [(0, 6), (8, 9)] ∧
      DividedInto (ofText uneven) 0 9 (itemRanges (ofText uneven) 0 9) ∧
      ∃ st : Checked.Statement, st.Shows (ofText uneven) ∧
        st.splitCommas 0 9 = .ok (itemRanges (ofText uneven) 0 9) := by
  have hpartners : Lexeme.ArePartners (Lexeme.ofText uneven) 0 4 := by decide +kernel
  have hclosing : Lexeme.isAt .rightParen (Lexeme.ofText uneven) 5 = true := by decide +kernel
  have hnobody : ∀ i < 5, ¬ Lexeme.ArePartners (Lexeme.ofText uneven) i 5 := by decide +kernel
  have hlength : 9 ≤ (ofText uneven).length := by decide +kernel
  rcases places_divided.1 (Lexeme.ofText uneven) with ⟨hdepths, hequal, herase⟩
  rcases places_divided.2 (ofText uneven) 0 9 hlength with ⟨hdivided, -, hsplit⟩
  rcases Checked.Statement.exists_ofTokens_strip uneven with ⟨st, -, hst⟩
  refine ⟨?_, hpartners, hequal 0 4 hpartners, hnobody, herase 5 hclosing hnobody, hlength,
    by decide +kernel, hdivided, st, hst, hsplit st hst⟩
  rw [hdepths]
  decide +kernel

end Run

end SelectAlgebra
