import SelectAlgebra.Statement

/-!
# Balanced lexemes

Lexemes are balanced when every parenthesis among them that closes has one that opens it, and the
other way round.  Balanced lexemes leave the depth behind them as it is, and inside a pair of
parentheses none of them stands at the depth of the pair.

Main results:

- Theorem `Run.place_append`: lexemes are placed part by part.
- Theorem `Run.place_append_leftOpen`: what follows lexemes is placed at the depth that they leave.
- Theorem `Run.place_enclosed`: a pair of parentheses is placed around what it encloses.
- Theorem `Run.le_depth_of_mem_place`: balanced lexemes are never placed outside of where they
  stand.
-/

namespace SelectAlgebra

namespace Lexeme

/-- The number of parentheses that are open behind the lexemes, when `depth` are open in front of
them; none when one of them closes a parenthesis that is not open. -/
def depthBehind : Nat → List Lexeme → Option Nat
  | depth, [] => some depth
  | depth, l :: ls =>
    match l.token.kind with
    | .leftParen => depthBehind (depth + 1) ls
    | .rightParen => if depth = 0 then none else depthBehind (depth - 1) ls
    | _ => depthBehind depth ls

/-- Every parenthesis has its partner among the lexemes. -/
def Balanced (ls : List Lexeme) : Prop :=
  depthBehind 0 ls = some 0

instance (ls : List Lexeme) : Decidable (Balanced ls) :=
  inferInstanceAs (Decidable (_ = _))

/-- The lexeme is a parenthesis. -/
def IsParen (l : Lexeme) : Prop :=
  l.token.kind = .leftParen ∨ l.token.kind = .rightParen

variable {l : Lexeme} {ls ms : List Lexeme} {depth behind : Nat}

/-- A lexeme opens a parenthesis, closes one or is no parenthesis. -/
theorem paren_cases (l : Lexeme) :
    l.token.kind = .leftParen ∨ l.token.kind = .rightParen ∨ ¬ l.IsParen := by
  by_cases hl : l.token.kind = .leftParen
  · exact Or.inl hl
  · by_cases hr : l.token.kind = .rightParen
    · exact Or.inr (Or.inl hr)
    · exact Or.inr (Or.inr fun h => h.elim hl hr)

/-- An opening parenthesis leads one level deeper. -/
theorem depthBehind_left (h : l.token.kind = .leftParen) :
    depthBehind depth (l :: ls) = depthBehind (depth + 1) ls := by
  simp [depthBehind, h]

theorem depthBehind_right (h : l.token.kind = .rightParen) :
    depthBehind depth (l :: ls) = if depth = 0 then none else depthBehind (depth - 1) ls := by
  simp [depthBehind, h]

theorem depthBehind_other (h : ¬ l.IsParen) :
    depthBehind depth (l :: ls) = depthBehind depth ls := by
  rw [depthBehind]
  split
  · rename_i hl
    exact absurd (Or.inl hl) h
  · rename_i hr
    exact absurd (Or.inr hr) h
  · rfl

/-- The depth behind two lists is that behind the second, from the depth behind the first. -/
theorem depthBehind_append :
    depthBehind depth (ls ++ ms) = (depthBehind depth ls).bind fun behind =>
      depthBehind behind ms := by
  induction ls generalizing depth with
  | nil => rfl
  | cons l ls ih =>
    rcases l.paren_cases with hl | hr | hother
    · rw [List.cons_append, depthBehind_left hl, depthBehind_left hl, ih]
    · rw [List.cons_append, depthBehind_right hr, depthBehind_right hr, ih]
      split <;> rfl
    · rw [List.cons_append, depthBehind_other hother, depthBehind_other hother, ih]

/-- Lexemes stay balanced when more parentheses are open around them. -/
theorem depthBehind_add (more : Nat) (h : depthBehind depth ls = some behind) :
    depthBehind (depth + more) ls = some (behind + more) := by
  induction ls generalizing depth with
  | nil =>
    obtain rfl := Option.some.inj h
    rfl
  | cons l ls ih =>
    rcases l.paren_cases with hl | hr | hother
    · rw [depthBehind_left hl] at h ⊢
      rw [Nat.add_right_comm]
      exact ih h
    · rw [depthBehind_right hr] at h ⊢
      split at h
      · cases h
      · rename_i hdepth
        have hsub : depth + more - 1 = depth - 1 + more := by omega
        rw [if_neg (by omega), hsub]
        exact ih h
    · rw [depthBehind_other hother] at h ⊢
      exact ih h

/-- The number of parentheses that are open behind the lexemes, when `depth` are open in front of
them.  One of them that closes a parenthesis that is not open changes nothing. -/
def leftOpen : Nat → List Lexeme → Nat
  | depth, [] => depth
  | depth, l :: ls =>
    match l.token.kind with
    | .leftParen => leftOpen (depth + 1) ls
    | .rightParen => leftOpen (depth - 1) ls
    | _ => leftOpen depth ls

/-- An opening parenthesis leaves one more open. -/
theorem leftOpen_left (h : l.token.kind = .leftParen) :
    leftOpen depth (l :: ls) = leftOpen (depth + 1) ls := by
  simp [leftOpen, h]

theorem leftOpen_right (h : l.token.kind = .rightParen) :
    leftOpen depth (l :: ls) = leftOpen (depth - 1) ls := by
  simp [leftOpen, h]

theorem leftOpen_other (h : ¬ l.IsParen) : leftOpen depth (l :: ls) = leftOpen depth ls := by
  rw [leftOpen]
  split
  · rename_i hl
    exact absurd (Or.inl hl) h
  · rename_i hr
    exact absurd (Or.inr hr) h
  · rfl

/-- Lexemes without parentheses stay at their depth. -/
theorem depthBehind_of_no_paren (h : ∀ l ∈ ls, ¬ l.IsParen) :
    depthBehind depth ls = some depth := by
  induction ls with
  | nil => rfl
  | cons l ls ih =>
    rw [depthBehind_other (h l (by simp))]
    exact ih fun m hm => h m (by simp [hm])

/-- Balanced lists one behind the other are balanced. -/
theorem Balanced.append (hls : Balanced ls) (hms : Balanced ms) : Balanced (ls ++ ms) := by
  rw [Balanced, depthBehind_append, hls]
  exact hms

/-- Lexemes without parentheses are balanced. -/
theorem balanced_of_no_paren (h : ∀ l ∈ ls, ¬ l.IsParen) : Balanced ls :=
  depthBehind_of_no_paren h

end Lexeme

namespace Run

open Lexeme

variable {l : Lexeme} {ls ms : List Lexeme} {depth behind : Nat}

/-- What follows an opening parenthesis is one level deeper. -/
theorem place_left (h : l.token.kind = .leftParen) :
    place depth (l :: ls) = ⟨l, depth⟩ :: place (depth + 1) ls := by
  simp [place, h]

/-- A closing parenthesis stands at the level of what follows it. -/
theorem place_right (h : l.token.kind = .rightParen) :
    place depth (l :: ls) = ⟨l, depth - 1⟩ :: place (depth - 1) ls := by
  simp [place, h]

theorem place_other (h : ¬ l.IsParen) :
    place depth (l :: ls) = ⟨l, depth⟩ :: place depth ls := by
  rw [place]
  split
  · rename_i hl
    exact absurd (Or.inl hl) h
  · rename_i hr
    exact absurd (Or.inr hr) h
  · rfl

/-- Lexemes are placed part by part, the later ones at the depth that the earlier ones leave. -/
theorem place_append (h : depthBehind depth ls = some behind) :
    place depth (ls ++ ms) = place depth ls ++ place behind ms := by
  induction ls generalizing depth with
  | nil =>
    obtain rfl := Option.some.inj h
    rfl
  | cons l ls ih =>
    rcases l.paren_cases with hl | hr | hother
    · rw [depthBehind_left hl] at h
      rw [List.cons_append, place_left hl, place_left hl, ih h, List.cons_append]
    · rw [depthBehind_right hr] at h
      split at h
      · cases h
      · rw [List.cons_append, place_right hr, place_right hr, ih h, List.cons_append]
    · rw [depthBehind_other hother] at h
      rw [List.cons_append, place_other hother, place_other hother, ih h, List.cons_append]

/-- Every lexeme is placed. -/
theorem length_place (depth : Nat) (ls : List Lexeme) : (place depth ls).length = ls.length := by
  have := congrArg List.length (map_toLexeme_place depth ls)
  rwa [List.length_map] at this

/-- What follows lexemes is placed at the depth that they leave. -/
theorem place_append_leftOpen (depth : Nat) (ls ms : List Lexeme) :
    place depth (ls ++ ms) = place depth ls ++ place (leftOpen depth ls) ms := by
  induction ls generalizing depth with
  | nil => rfl
  | cons l ls ih =>
    rcases l.paren_cases with hl | hr | hother
    · rw [List.cons_append, place_left hl, place_left hl, leftOpen_left hl, ih, List.cons_append]
    · rw [List.cons_append, place_right hr, place_right hr, leftOpen_right hr, ih,
        List.cons_append]
    · rw [List.cons_append, place_other hother, place_other hother, leftOpen_other hother, ih,
        List.cons_append]

/-- A pair of parentheses stands at one depth, and what it encloses inside. -/
theorem place_enclosed {left right : Lexeme} {inner : List Lexeme}
    (hleft : left.token.kind = .leftParen) (hright : right.token.kind = .rightParen)
    (hinner : Balanced inner) (ls : List Lexeme) :
    place depth (left :: (inner ++ right :: ls)) =
      ⟨left, depth⟩ :: (place (depth + 1) inner ++ ⟨right, depth⟩ :: place depth ls) := by
  have hbehind := depthBehind_add (depth + 1) hinner
  rw [Nat.zero_add] at hbehind
  rw [place_left hleft, place_append hbehind, place_right hright, Nat.add_sub_cancel]

/-- Lexemes without parentheses all stand at one depth. -/
theorem place_of_no_paren (h : ∀ l ∈ ls, ¬ l.IsParen) :
    place depth ls = ls.map fun l => ⟨l, depth⟩ := by
  induction ls with
  | nil => rfl
  | cons l ls ih =>
    rw [place_other (h l (by simp)), ih fun m hm => h m (by simp [hm]), List.map_cons]

/-- Lexemes that are balanced where fewer parentheses are open stand inside the others. -/
theorem le_depth_of_mem_place {more : Nat} {p : Placed} (h : depthBehind depth ls = some behind)
    (hp : p ∈ place (depth + more) ls) : more ≤ p.depth := by
  induction ls generalizing depth with
  | nil => cases hp
  | cons l ls ih =>
    rcases l.paren_cases with hl | hr | hother
    · rw [depthBehind_left hl] at h
      rw [place_left hl, Nat.add_right_comm] at hp
      rcases List.mem_cons.1 hp with rfl | hp
      · exact Nat.le_add_left more depth
      · exact ih h hp
    · rw [depthBehind_right hr] at h
      split at h
      · cases h
      · have hsub : depth + more - 1 = depth - 1 + more := by omega
        rw [place_right hr, hsub] at hp
        rcases List.mem_cons.1 hp with rfl | hp
        · exact Nat.le_add_left more (depth - 1)
        · exact ih h hp
    · rw [depthBehind_other hother] at h
      rw [place_other hother] at hp
      rcases List.mem_cons.1 hp with rfl | hp
      · exact Nat.le_add_left more depth
      · exact ih h hp

end Run

end SelectAlgebra
