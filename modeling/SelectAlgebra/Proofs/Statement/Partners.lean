import SelectAlgebra.Proofs.Lists
import SelectAlgebra.Proofs.Statement.Depth

/-!
# Partners

Lexemes are nested when they are made of pairs of parentheses, one inside or behind the other, and
of lexemes that are no parentheses.  A parenthesis that closes is the partner of one that opens when
what stands between the two is nested.  A lexeme is placed at the number of parentheses in front of
it that open and have no partner up to it, so partners are placed at the same depth, and a
parenthesis that closes and is nobody's partner has no say in where anything else is placed.

Main results:

- Theorem `Lexeme.nested_iff`: lexemes are nested when none of them lacks a partner.
- Theorem `Lexeme.balanced_iff_nested`: the balanced lexemes are the nested ones.
- Theorem `Lexeme.leftOpen_eq`: what is left open, from the parentheses that lack a partner.
- Theorem `Run.depths_place`: a lexeme is placed at the number of parentheses open around it.
- Theorem `Run.depths_partners`: partners are placed at the same depth.
- Theorem `Run.place_eraseIdx`: what is placed without a parenthesis that is nobody's partner.
-/

namespace SelectAlgebra

namespace Lexeme

/-- Lexemes that are made of pairs of parentheses, one inside or behind the other, and of lexemes
that are no parentheses. -/
inductive Nested : List Lexeme → Prop
  | nil : Nested []
  | other {l : Lexeme} {behind : List Lexeme} :
      ¬ l.IsParen → Nested behind → Nested (l :: behind)
  | pair {opening closing : Lexeme} {inner behind : List Lexeme} :
      opening.token.kind = .leftParen → closing.token.kind = .rightParen →
        Nested inner → Nested behind → Nested (opening :: (inner ++ closing :: behind))

variable {l : Lexeme} {ls inner : List Lexeme} {kind : TokenKind} {i j : Nat}

/-! ## Parentheses without a partner -/

/-- The number of parentheses that close and have no partner among the lexemes. -/
def unopened : List Lexeme → Nat
  | [] => 0
  | l :: ls =>
    match l.token.kind with
    | .leftParen => unopened ls - 1
    | .rightParen => unopened ls + 1
    | _ => unopened ls

/-- The number of parentheses that open and have no partner among the lexemes.  A parenthesis that
opens takes the first one behind it that closes and has no other partner. -/
def unclosed : List Lexeme → Nat
  | [] => 0
  | l :: ls =>
    if l.token.kind = .leftParen ∧ unopened ls = 0 then unclosed ls + 1 else unclosed ls

/-- An opening parenthesis gives a later one its partner. -/
theorem unopened_left (h : l.token.kind = .leftParen) :
    unopened (l :: ls) = unopened ls - 1 := by
  simp [unopened, h]

/-- A closing parenthesis at the start has no partner. -/
theorem unopened_right (h : l.token.kind = .rightParen) :
    unopened (l :: ls) = unopened ls + 1 := by
  simp [unopened, h]

theorem unopened_other (h : ¬ l.IsParen) : unopened (l :: ls) = unopened ls := by
  rw [unopened]
  split
  · rename_i hl
    exact absurd (Or.inl hl) h
  · rename_i hr
    exact absurd (Or.inr hr) h
  · rfl

/-- An opening parenthesis stays open when no closing one is left for it. -/
theorem unclosed_left (h : l.token.kind = .leftParen) :
    unclosed (l :: ls) = if unopened ls = 0 then unclosed ls + 1 else unclosed ls := by
  simp [unclosed, h]

/-- A closing parenthesis at the start closes nothing. -/
theorem unclosed_right (h : l.token.kind = .rightParen) : unclosed (l :: ls) = unclosed ls := by
  simp [unclosed, h]

theorem unclosed_other (h : ¬ l.IsParen) : unclosed (l :: ls) = unclosed ls := by
  rw [unclosed, if_neg fun hl => h (Or.inl hl.1)]

/-- What is left open behind lexemes: of the parentheses open in front of them each one that closes
and has no partner among them takes one, and those that open and have none are added. -/
theorem leftOpen_eq (depth : Nat) (ls : List Lexeme) :
    leftOpen depth ls = depth - unopened ls + unclosed ls := by
  induction ls generalizing depth with
  | nil => rfl
  | cons l ls ih =>
    rcases l.paren_cases with hl | hr | ho
    · rw [leftOpen_left hl, ih, unopened_left hl, unclosed_left hl]
      split <;> omega
    · rw [leftOpen_right hr, ih, unopened_right hr, unclosed_right hr]
      omega
    · rw [leftOpen_other ho, ih, unopened_other ho, unclosed_other ho]

/-- The depth behind lexemes is the one that they leave open, if no parenthesis among them closes
one that is not open. -/
theorem depthBehind_eq_some_iff {depth behind : Nat} :
    depthBehind depth ls = some behind ↔ unopened ls ≤ depth ∧ leftOpen depth ls = behind := by
  induction ls generalizing depth with
  | nil => simp [depthBehind, unopened, leftOpen]
  | cons l ls ih =>
    rcases l.paren_cases with hl | hr | ho
    · rw [depthBehind_left hl, ih, unopened_left hl, leftOpen_left hl, Nat.sub_le_iff_le_add]
    · rw [depthBehind_right hr, unopened_right hr, leftOpen_right hr]
      split
      · rename_i hdepth
        simp [hdepth]
      · rename_i hdepth
        rw [ih, Nat.le_sub_iff_add_le (Nat.pos_of_ne_zero hdepth)]
    · rw [depthBehind_other ho, ih, unopened_other ho, leftOpen_other ho]

/-! ## Nested lexemes -/

/-- A nested list in front leaves the closing parentheses as they are. -/
theorem Nested.unopened_append (h : Nested inner) (ls : List Lexeme) :
    unopened (inner ++ ls) = unopened ls := by
  induction h generalizing ls with
  | nil => rfl
  | other ho _ ih => rw [List.cons_append, unopened_other ho, ih]
  | pair hopening hclosing _ _ ihInner ihBehind =>
    rw [List.cons_append, unopened_left hopening, List.append_assoc, ihInner, List.cons_append,
      unopened_right hclosing, ihBehind, Nat.add_sub_cancel]

/-- A nested list in front leaves the opening parentheses as they are. -/
theorem Nested.unclosed_append (h : Nested inner) (ls : List Lexeme) :
    unclosed (inner ++ ls) = unclosed ls := by
  induction h generalizing ls with
  | nil => rfl
  | other ho _ ih => rw [List.cons_append, unclosed_other ho, ih]
  | @pair _ closing inner behind hopening hclosing hinner _ ihInner ihBehind =>
    have hpartner : unopened (inner ++ closing :: (behind ++ ls)) ≠ 0 := by
      rw [hinner.unopened_append, unopened_right hclosing]
      exact Nat.succ_ne_zero _
    rw [List.cons_append, List.append_assoc, List.cons_append, unclosed_left hopening,
      if_neg hpartner, ihInner, unclosed_right hclosing, ihBehind]

/-- The first parenthesis that closes and has no partner stands behind nested lexemes. -/
theorem exists_first_unopened (h : 0 < unopened ls) :
    ∃ inner closing behind, ls = inner ++ closing :: behind ∧ Nested inner ∧
      closing.token.kind = .rightParen ∧ unopened ls = unopened behind + 1 := by
  induction hn : ls.length using Nat.strongRecOn generalizing ls with
  | ind n ih =>
    cases ls with
    | nil => cases h
    | cons l ls =>
      have hlength : ls.length < n := by
        rw [← hn, List.length_cons]
        exact Nat.lt_succ_self _
      rcases l.paren_cases with hl | hr | ho
      · -- The first such parenthesis behind `l` is the partner of `l`; the second is the one.
        rw [unopened_left hl] at h
        rcases ih ls.length hlength (by omega) rfl with
          ⟨inner, partner, ms, rfl, hinner, hpartner, hms⟩
        have hshorter : ms.length < n := by
          rw [List.length_append, List.length_cons] at hlength
          omega
        rcases ih ms.length hshorter (by omega) rfl with
          ⟨between, closing, behind, rfl, hbetween, hclosing, hbehind⟩
        refine ⟨l :: (inner ++ partner :: between), closing, behind, by simp,
          .pair hl hpartner hinner hbetween, hclosing, ?_⟩
        rw [unopened_left hl]
        omega
      · exact ⟨[], l, ls, rfl, .nil, hr, unopened_right hr⟩
      · rw [unopened_other ho] at h ⊢
        rcases ih ls.length hlength h rfl with
          ⟨inner, closing, behind, rfl, hinner, hclosing, hbehind⟩
        exact ⟨l :: inner, closing, behind, rfl, .other ho hinner, hclosing, hbehind⟩

/-- Lexemes are nested when none of them lacks a partner. -/
theorem nested_iff : Nested ls ↔ unopened ls = 0 ∧ unclosed ls = 0 := by
  constructor
  · intro h
    have hunopened := h.unopened_append []
    have hunclosed := h.unclosed_append []
    rw [List.append_nil] at hunopened hunclosed
    exact ⟨hunopened, hunclosed⟩
  · rintro ⟨hunopened, hunclosed⟩
    induction hn : ls.length using Nat.strongRecOn generalizing ls with
    | ind n ih =>
      cases ls with
      | nil => exact .nil
      | cons l ls =>
        have hlength : ls.length < n := by
          rw [← hn, List.length_cons]
          exact Nat.lt_succ_self _
        rcases l.paren_cases with hl | hr | ho
        · -- `l` has a partner, or it would be unclosed; behind the partner there are fewer lexemes.
          rw [unopened_left hl] at hunopened
          rw [unclosed_left hl] at hunclosed
          split at hunclosed
          · cases hunclosed
          · rename_i hpartner
            rcases exists_first_unopened (Nat.pos_of_ne_zero hpartner) with
              ⟨inner, closing, behind, rfl, hinner, hclosing, hbehind⟩
            have hshorter : behind.length < n := by
              rw [List.length_append, List.length_cons] at hlength
              omega
            rw [hinner.unclosed_append, unclosed_right hclosing] at hunclosed
            exact .pair hl hclosing hinner
              (ih behind.length hshorter (by omega) hunclosed rfl)
        · rw [unopened_right hr] at hunopened
          cases hunopened
        · rw [unopened_other ho] at hunopened
          rw [unclosed_other ho] at hunclosed
          exact .other ho (ih ls.length hlength hunopened hunclosed rfl)

instance (ls : List Lexeme) : Decidable (Nested ls) :=
  decidable_of_iff _ nested_iff.symm

/-- The balanced lexemes are the nested ones. -/
theorem balanced_iff_nested : Balanced ls ↔ Nested ls := by
  rw [Balanced, depthBehind_eq_some_iff, leftOpen_eq, nested_iff]
  omega

/-- The last parenthesis that opens and has no partner stands in front of nested lexemes. -/
theorem exists_last_unclosed (h : 0 < unclosed ls) :
    ∃ front opening inner, ls = front ++ opening :: inner ∧
      opening.token.kind = .leftParen ∧ Nested inner := by
  induction ls with
  | nil => cases h
  | cons l ls ih =>
    by_cases hls : unclosed ls = 0
    · rw [unclosed, hls] at h
      split at h
      · rename_i hl
        exact ⟨[], l, ls, rfl, hl.1, nested_iff.2 ⟨hl.2, hls⟩⟩
      · cases h
    · rcases ih (Nat.pos_of_ne_zero hls) with ⟨front, opening, inner, rfl, hopening, hinner⟩
      exact ⟨l :: front, opening, inner, rfl, hopening, hinner⟩

/-! ## Partners -/

/-- A token of the kind stands at the place. -/
def isAt (kind : TokenKind) (ls : List Lexeme) (i : Nat) : Bool :=
  ls[i]?.any (·.token.kind == kind)

/-- The parenthesis at place `j` closes the one that opens at place `i`: what stands between the two
is nested. -/
def ArePartners (ls : List Lexeme) (i j : Nat) : Prop :=
  i < j ∧ isAt .leftParen ls i = true ∧ isAt .rightParen ls j = true ∧
    Nested ((ls.take j).drop (i + 1))

instance (ls : List Lexeme) (i j : Nat) : Decidable (ArePartners ls i j) :=
  inferInstanceAs (Decidable (_ ∧ _ ∧ _ ∧ _))

/-- A parenthesis opens at place `i` and is not closed in front of place `k`. -/
def IsOpenBefore (ls : List Lexeme) (k i : Nat) : Prop :=
  isAt .leftParen ls i = true ∧ ¬ ∃ j < k, ArePartners ls i j

instance (ls : List Lexeme) (k i : Nat) : Decidable (IsOpenBefore ls k i) :=
  inferInstanceAs (Decidable (_ ∧ ¬ _))

/-- The number of parentheses that open in front of place `k` and are closed neither in front of it
nor at it. -/
def openAt (ls : List Lexeme) (k : Nat) : Nat :=
  (List.range k).countP fun i => decide (IsOpenBefore ls (k + 1) i)

/-- A lexeme of a kind stands at a place when the list can be taken apart there. -/
theorem isAt_iff : isAt kind ls i = true ↔
    ∃ front l behind, ls = front ++ l :: behind ∧ front.length = i ∧ l.token.kind = kind := by
  rw [isAt, Option.any_eq_true]
  constructor
  · rintro ⟨l, hl, hkind⟩
    rcases List.getElem?_eq_some_iff.1 hl with ⟨hi, rfl⟩
    refine ⟨ls.take i, ls[i], ls.drop (i + 1), ?_, ?_, by simpa using hkind⟩
    · rw [← List.drop_eq_getElem_cons hi, List.take_append_drop]
    · rw [List.length_take]
      omega
  · rintro ⟨front, l, behind, rfl, rfl, rfl⟩
    exact ⟨l, by simp, by simp⟩

/-- Partners stand around nested lexemes. -/
theorem ArePartners.exists_append (h : ArePartners ls i j) :
    ∃ front opening inner closing behind,
      ls = front ++ opening :: (inner ++ closing :: behind) ∧ front.length = i ∧
        front.length + 1 + inner.length = j ∧ opening.token.kind = .leftParen ∧
          closing.token.kind = .rightParen ∧ Nested inner := by
  rcases h with ⟨hij, hi, hj, hinner⟩
  rcases isAt_iff.1 hj with ⟨before, closing, behind, rfl, rfl, hclosing⟩
  rw [isAt, List.getElem?_append_left hij, ← isAt] at hi
  rcases isAt_iff.1 hi with ⟨front, opening, inner, rfl, rfl, hopening⟩
  rw [List.take_left, List.drop_length_add_append, List.drop_succ_cons, List.drop_zero] at hinner
  exact ⟨front, opening, inner, closing, behind, by simp, rfl,
    (List.length_append_cons front opening inner).symm, hopening, hclosing, hinner⟩

/-- Two parentheses around a nested list are partners. -/
theorem arePartners_append (front behind : List Lexeme) {opening closing : Lexeme}
    (hopening : opening.token.kind = .leftParen) (hclosing : closing.token.kind = .rightParen)
    (hinner : Nested inner) :
    ArePartners (front ++ opening :: (inner ++ closing :: behind)) front.length
      (front.length + 1 + inner.length) := by
  have hsplit : front ++ opening :: (inner ++ closing :: behind) =
      (front ++ opening :: inner) ++ closing :: behind := by
    rw [List.append_assoc, List.cons_append]
  have hlength := List.length_append_cons front opening inner
  refine ⟨by omega, isAt_iff.2 ⟨front, opening, _, rfl, rfl, hopening⟩,
    isAt_iff.2 ⟨_, closing, behind, hsplit, hlength, hclosing⟩, ?_⟩
  rwa [hsplit, ← hlength, List.take_left, List.drop_length_add_append, List.drop_succ_cons,
    List.drop_zero]

/-! ## Parentheses that are open at a place -/

theorem isAt_cons_succ : isAt kind (l :: ls) (i + 1) = isAt kind ls i := by
  rw [isAt, List.getElem?_cons_succ, isAt]

/-- Partners behind the first lexeme are partners among the others. -/
theorem arePartners_cons_succ : ArePartners (l :: ls) (i + 1) (j + 1) ↔ ArePartners ls i j := by
  simp [ArePartners, isAt_cons_succ]

/-- The first parenthesis has a partner when one of those behind it that close lacks one. -/
theorem exists_partner_cons_iff (hl : l.token.kind = .leftParen) (k : Nat) :
    (∃ j < k + 1, ArePartners (l :: ls) 0 j) ↔ 0 < unopened (ls.take k) := by
  constructor
  · rintro ⟨j, hj, hpartners⟩
    rcases hpartners.exists_append with
      ⟨front, opening, inner, closing, behind, hsplit, hfront, rfl, -, hclosing, hinner⟩
    obtain rfl := List.eq_nil_of_length_eq_zero hfront
    obtain ⟨rfl, rfl⟩ := List.cons.inj hsplit
    obtain ⟨m, rfl⟩ : ∃ m, k = inner.length + (m + 1) := ⟨k - inner.length - 1, by
      rw [List.length_nil] at hj
      omega⟩
    rw [List.take_length_add_append, List.take_succ_cons, hinner.unopened_append,
      unopened_right hclosing]
    exact Nat.succ_pos _
  · intro h
    rcases exists_first_unopened h with ⟨inner, closing, behind, hsplit, hinner, hclosing, -⟩
    have hls : ls = inner ++ closing :: (behind ++ ls.drop k) := by
      rw [← List.cons_append, ← List.append_assoc, ← hsplit, List.take_append_drop]
    have hlength := congrArg List.length hsplit
    rw [List.length_take, List.length_append, List.length_cons] at hlength
    refine ⟨0 + 1 + inner.length, by omega, ?_⟩
    rw [hls]
    exact arePartners_append [] _ hl hclosing hinner

/-- Which parentheses are open is told without the lexemes in front of them. -/
theorem isOpenBefore_cons_succ (k : Nat) :
    IsOpenBefore (l :: ls) (k + 1) (i + 1) ↔ IsOpenBefore ls k i := by
  rw [IsOpenBefore, isAt_cons_succ, IsOpenBefore]
  refine and_congr_right fun _ => not_congr ⟨?_, ?_⟩
  · rintro ⟨j, hj, hpartners⟩
    cases j with
    | zero => exact absurd hpartners.1 (Nat.not_lt_zero _)
    | succ j => exact ⟨j, Nat.lt_of_succ_lt_succ hj, arePartners_cons_succ.1 hpartners⟩
  · rintro ⟨j, hj, hpartners⟩
    exact ⟨j + 1, Nat.succ_lt_succ hj, arePartners_cons_succ.2 hpartners⟩

/-- The first parenthesis is open as long as nothing closes it. -/
theorem isOpenBefore_cons_zero (k : Nat) :
    IsOpenBefore (l :: ls) (k + 1) 0 ↔
      l.token.kind = .leftParen ∧ unopened (ls.take k) = 0 := by
  have hat : isAt .leftParen (l :: ls) 0 = true ↔ l.token.kind = .leftParen := by
    simp [isAt]
  rw [IsOpenBefore, hat]
  refine and_congr_right fun hl => ?_
  rw [exists_partner_cons_iff hl, Nat.not_lt, Nat.le_zero]

/-- The parentheses that are open behind the first lexemes are those that lack a partner. -/
theorem countP_isOpenBefore (ls : List Lexeme) (k : Nat) :
    ((List.range k).countP fun i => decide (IsOpenBefore ls k i)) = unclosed (ls.take k) := by
  induction k generalizing ls with
  | zero => rfl
  | succ k ih =>
    cases ls with
    | nil => simp [IsOpenBefore, isAt, unclosed]
    | cons l ls =>
      rw [List.range_succ_eq_map, List.countP_cons, List.countP_map, List.take_succ_cons, unclosed,
        ← ih ls]
      simp only [Function.comp_def, Nat.succ_eq_add_one, isOpenBefore_cons_succ,
        isOpenBefore_cons_zero, decide_eq_true_eq]
      split <;> rfl

/-- Behind place `k` stand open what is open at it and a parenthesis that opens there. -/
theorem unclosed_take_succ (ls : List Lexeme) (k : Nat) :
    unclosed (ls.take (k + 1)) = openAt ls k + if isAt .leftParen ls k then 1 else 0 := by
  have hlast : IsOpenBefore ls (k + 1) k ↔ isAt .leftParen ls k = true := by
    rw [IsOpenBefore, and_iff_left_iff_imp]
    rintro - ⟨j, hj, hpartners⟩
    have := hpartners.1
    omega
  rw [← countP_isOpenBefore, List.range_succ, List.countP_append, List.countP_singleton, openAt]
  simp only [hlast, decide_eq_true_eq]

end Lexeme

namespace Run

open Lexeme

variable {ls : List Lexeme} {i j k : Nat}

/-- The depths at which the lexemes of a run stand. -/
def depths (r : Run) : List Nat :=
  r.map (·.depth)

/-- A lexeme is placed at what it and those in front of it leave open, unless it opens a
parenthesis itself, which does not count. -/
theorem depths_place_getElem? (depth : Nat) (hk : k < ls.length) :
    ∃ d, (depths (place depth ls))[k]? = some d ∧
      leftOpen depth (ls.take (k + 1)) = d + if isAt .leftParen ls k then 1 else 0 := by
  induction ls generalizing depth k with
  | nil => cases hk
  | cons l ls ih =>
    cases k with
    | zero =>
      rcases l.paren_cases with hl | hr | ho
      · refine ⟨depth, by rw [place_left hl]; rfl, ?_⟩
        rw [List.take_succ_cons, leftOpen_left hl]
        simp [leftOpen, isAt, hl]
      · refine ⟨depth - 1, by rw [place_right hr]; rfl, ?_⟩
        rw [List.take_succ_cons, leftOpen_right hr]
        simp [leftOpen, isAt, hr]
      · refine ⟨depth, by rw [place_other ho]; rfl, ?_⟩
        have hl : l.token.kind ≠ .leftParen := fun hl => ho (Or.inl hl)
        rw [List.take_succ_cons, leftOpen_other ho]
        simp [leftOpen, isAt, hl]
    | succ k =>
      have hlast : k < ls.length := Nat.lt_of_succ_lt_succ hk
      rw [List.take_succ_cons, isAt_cons_succ]
      rcases l.paren_cases with hl | hr | ho
      · rw [place_left hl, leftOpen_left hl]
        exact ih (depth + 1) hlast
      · rw [place_right hr, leftOpen_right hr]
        exact ih (depth - 1) hlast
      · rw [place_other ho, leftOpen_other ho]
        exact ih depth hlast

/-- A lexeme is placed at the number of parentheses open around it. -/
theorem depths_place (ls : List Lexeme) :
    depths (place 0 ls) = (List.range ls.length).map (openAt ls) := by
  apply List.ext_getElem?
  intro k
  rw [List.getElem?_map]
  by_cases hk : k < ls.length
  · rcases depths_place_getElem? 0 hk with ⟨d, hd, hopen⟩
    rw [Lexeme.leftOpen_eq, Nat.zero_sub, Nat.zero_add, unclosed_take_succ] at hopen
    rw [hd, List.getElem?_range hk, Option.map_some, Nat.add_right_cancel hopen]
  · have hend := Nat.not_lt.1 hk
    rw [List.getElem?_eq_none (by rwa [depths, List.length_map, length_place]),
      List.getElem?_eq_none (by rwa [List.length_range])]
    rfl

/-- Behind `k` lexemes stands the depth of the next one. -/
theorem depths_getElem?_append {r : Run} (hr : r.length = k) (p : Placed) (s : Run) :
    (depths (r ++ p :: s))[k]? = some p.depth := by
  rw [depths, List.getElem?_map, ← hr, List.getElem?_append_right (Nat.le_refl _), Nat.sub_self]
  rfl

/-- Partners are placed at the same depth. -/
theorem depths_partners (h : ArePartners ls i j) :
    (depths (place 0 ls))[i]? = (depths (place 0 ls))[j]? := by
  rcases h.exists_append with
    ⟨front, opening, inner, closing, behind, rfl, rfl, rfl, hopening, hclosing, hinner⟩
  generalize hdepth : leftOpen 0 front = depth
  have hplace : place 0 (front ++ opening :: (inner ++ closing :: behind)) =
      place 0 front ++ ⟨opening, depth⟩ ::
        (place (depth + 1) inner ++ ⟨closing, depth⟩ :: place depth behind) := by
    rw [place_append_leftOpen, hdepth,
      place_enclosed hopening hclosing (balanced_iff_nested.2 hinner)]
  have hfront : (place 0 front).length = front.length := length_place 0 front
  have hbefore : (place 0 front ++ ⟨opening, depth⟩ :: place (depth + 1) inner).length =
      front.length + 1 + inner.length := by
    rw [List.length_append_cons, length_place, length_place]
  have hj := depths_getElem?_append hbefore ⟨closing, depth⟩ (place depth behind)
  rw [List.append_assoc, List.cons_append] at hj
  rw [hplace, depths_getElem?_append hfront, hj]

/-- A parenthesis that closes and is nobody's partner has no say in where the others are placed. -/
theorem place_eraseIdx (hk : isAt .rightParen ls k = true) (h : ∀ i, ¬ ArePartners ls i k) :
    place 0 (ls.eraseIdx k) = (place 0 ls).eraseIdx k := by
  rcases isAt_iff.1 hk with ⟨front, closing, behind, rfl, rfl, hclosing⟩
  have hfront : leftOpen 0 front = 0 := by
    rw [Lexeme.leftOpen_eq, Nat.zero_sub, Nat.zero_add]
    refine Nat.eq_zero_of_not_pos fun hopen => ?_
    rcases exists_last_unclosed hopen with ⟨before, opening, inner, rfl, hopening, hinner⟩
    refine h before.length ?_
    have hpartners := arePartners_append before behind hopening hclosing hinner
    rwa [List.length_append_cons, List.append_assoc, List.cons_append]
  have hplace : place 0 (front ++ closing :: behind) =
      place 0 front ++ ⟨closing, 0⟩ :: place 0 behind := by
    rw [place_append_leftOpen, hfront, place_right hclosing]
  have herase := List.eraseIdx_append_of_length_le (Nat.le_refl front.length) (closing :: behind)
  have hplaced := List.eraseIdx_append_of_length_le
    (Nat.le_of_eq (length_place 0 front)) (⟨closing, 0⟩ :: place 0 behind)
  rw [Nat.sub_self, List.eraseIdx_cons_zero] at herase
  rw [length_place, Nat.sub_self, List.eraseIdx_cons_zero] at hplaced
  rw [hplace, herase, hplaced, place_append_leftOpen, hfront]

end Run

end SelectAlgebra
