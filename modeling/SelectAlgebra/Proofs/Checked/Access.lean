import SelectAlgebra.Proofs.Token.Located

/-!
# Accesses that may fail

The readers of a statement may be written with indices into its tokens and with byte offsets into
its text.  Then every access has a condition: an index is in range, a difference is not negative, a
range does not end before it starts, and a slice starts and stops between two characters.  Here an
access whose condition fails is a fault, and so is a step of a loop that does not advance.

Main results:

- Theorem `splitBytes_eq_ok_iff`: a text is split at an offset exactly when a character ends there.
- Theorem `slice_eq_ok_iff`: a slice is had exactly when the text has one between the offsets.
- Theorems `loop_done`, `loop_break` and `loop_next`: how a loop unfolds.
-/

namespace SelectAlgebra.Checked

/-- Why an access is refused. -/
inductive Fault where
  /-- An index or an end of a range is past the end. -/
  | outOfRange
  /-- A range ends before it starts. -/
  | reversed
  /-- An offset is not the boundary of a character. -/
  | insideCharacter
  /-- A difference is negative. -/
  | negative
  /-- A step of a loop does not advance. -/
  | stuck
deriving DecidableEq

/-- A computation that may stop with a fault. -/
abbrev Access := Except Fault

@[simp]
theorem ok_bind {α β : Type} (x : α) (f : α → Access β) :
    ((.ok x : Access α) >>= f) = f x :=
  rfl

/-! ## Numbers and lists -/

/-- The difference of two numbers. -/
def sub (m n : Nat) : Access Nat :=
  if n ≤ m then .ok (m - n) else .error .negative

/-- A number can be taken off a sum that it is part of. -/
@[simp]
theorem sub_add_right (m n : Nat) : sub (m + n) n = .ok m := by
  rw [sub, if_pos (Nat.le_add_left n m), Nat.add_sub_cancel]

section Lists

variable {α : Type}

/-- The entry at an index. -/
def get (xs : List α) (i : Nat) : Access α :=
  match xs[i]? with
  | some x => .ok x
  | none => .error .outOfRange

/-- The entries from one index up to another. -/
def range (xs : List α) (start stop : Nat) : Access (List α) :=
  if stop < start then .error .reversed
  else if xs.length < stop then .error .outOfRange
  else .ok ((xs.take stop).drop start)

theorem get_eq_ok {xs : List α} {i : Nat} {x : α} (h : xs[i]? = some x) : get xs i = .ok x := by
  rw [get, h]

/-- A range inside a list is taken without a fault. -/
theorem range_eq_ok {xs : List α} {start stop : Nat} (h : start ≤ stop) (hstop : stop ≤ xs.length) :
    range xs start stop = .ok ((xs.take stop).drop start) := by
  rw [range, if_neg (Nat.not_lt.2 h), if_neg (Nat.not_lt.2 hstop)]

end Lists

/-! ## Slices of a text -/

/-- Splits a text at a byte offset. -/
def splitBytes : List Char → Nat → Access (List Char × List Char)
  | cs, 0 => .ok ([], cs)
  | [], _ + 1 => .error .outOfRange
  | c :: cs, n + 1 =>
    if n + 1 < c.utf8Size then .error .insideCharacter
    else do
      let split ← splitBytes cs (n + 1 - c.utf8Size)
      .ok (c :: split.1, split.2)

/-- The characters of a text from one byte offset up to another. -/
def slice (cs : List Char) (start stop : Nat) : Access (List Char) :=
  if stop < start then .error .reversed
  else do
    let front ← splitBytes cs stop
    let piece ← splitBytes front.1 start
    .ok piece.2

/-- The characters of a text from a byte offset on. -/
def sliceFrom (cs : List Char) (start : Nat) : Access (List Char) := do
  let split ← splitBytes cs start
  .ok split.2

/-- A text is split at the size of its first part. -/
theorem splitBytes_append (a b : List Char) : splitBytes (a ++ b) (byteLength a) = .ok (a, b) := by
  induction a with
  | nil => rw [List.nil_append, byteLength_nil, splitBytes]
  | cons c a ih =>
    have hpos := c.utf8Size_pos
    obtain ⟨n, hn⟩ : ∃ n, byteLength (c :: a) = n + 1 :=
      Nat.exists_eq_add_one.2 (byteLength_pos (List.cons_ne_nil c a))
    have hrest : n + 1 - c.utf8Size = byteLength a := by
      rw [← hn, byteLength_cons, Nat.add_sub_cancel_left]
    have hwhole : ¬ n + 1 < c.utf8Size := by
      rw [← hn, byteLength_cons]
      omega
    rw [hn, List.cons_append, splitBytes, if_neg hwhole, hrest, ih]
    rfl

/-- The two parts of a split text make it up, and the first has the size that was asked for. -/
theorem append_of_splitBytes {cs a b : List Char} {n : Nat} (h : splitBytes cs n = .ok (a, b)) :
    cs = a ++ b ∧ byteLength a = n := by
  induction cs generalizing n a with
  | nil =>
    cases n with
    | zero =>
      cases h
      exact ⟨rfl, rfl⟩
    | succ n => cases h
  | cons c cs ih =>
    cases n with
    | zero =>
      cases h
      exact ⟨rfl, rfl⟩
    | succ n =>
      rw [splitBytes] at h
      split at h
      · cases h
      · rename_i hwhole
        cases hrest : splitBytes cs (n + 1 - c.utf8Size) with
        | error fault =>
          rw [hrest] at h
          cases h
        | ok split =>
          rcases split with ⟨front, back⟩
          rw [hrest] at h
          cases h
          obtain ⟨rfl, hlength⟩ := ih hrest
          refine ⟨rfl, ?_⟩
          rw [byteLength_cons, hlength]
          omega

/-- A text is split at an offset exactly when a character ends there. -/
theorem splitBytes_eq_ok_iff {cs a b : List Char} {n : Nat} :
    splitBytes cs n = .ok (a, b) ↔ cs = a ++ b ∧ byteLength a = n := by
  constructor
  · exact append_of_splitBytes
  · rintro ⟨rfl, rfl⟩
    exact splitBytes_append a b

/-- What stands behind the first part is taken from its size on. -/
theorem sliceFrom_append (a b : List Char) : sliceFrom (a ++ b) (byteLength a) = .ok b := by
  rw [sliceFrom, splitBytes_append]
  rfl

/-- A slice is had exactly when the text has one between the offsets. -/
theorem slice_eq_ok_iff {cs piece : List Char} {start stop : Nat} :
    slice cs start stop = .ok piece ↔ SliceAt cs start stop piece := by
  constructor
  · intro h
    rw [slice] at h
    split at h
    · cases h
    · cases hfront : splitBytes cs stop with
      | error fault =>
        rw [hfront] at h
        cases h
      | ok front =>
        rw [hfront, ok_bind] at h
        cases hpiece : splitBytes front.1 start with
        | error fault =>
          rw [hpiece] at h
          cases h
        | ok split =>
          rw [hpiece] at h
          cases h
          obtain ⟨hcs, hstop⟩ := splitBytes_eq_ok_iff.1 hfront
          obtain ⟨hsplit, hstart⟩ := splitBytes_eq_ok_iff.1 hpiece
          refine ⟨split.1, front.2, ?_, hstart, ?_⟩
          · rw [hcs, hsplit, List.append_assoc]
          · rw [← hstop, hsplit, byteLength_append, hstart]
  · rintro ⟨before, after, rfl, rfl, rfl⟩
    have hfront : before ++ (piece ++ after) = (before ++ piece) ++ after :=
      (List.append_assoc before piece after).symm
    rw [slice, if_neg (Nat.not_lt.2 (Nat.le_add_right _ _)), hfront, ← byteLength_append,
      splitBytes_append, ok_bind, splitBytes_append]
    rfl

example : slice ['a', 'é', 'b'] 1 3 = .ok ['é'] := rfl

example : slice ['a', 'é', 'b'] 0 2 = .error .insideCharacter := rfl

/-! ## Loops -/

section Loops

variable {σ : Type} {limit i j : Nat} {step : Nat → σ → Access (Option (Nat × σ))} {s s' : σ}

/-- Runs a loop over the indices below `limit`.  A step ends the loop or gives the index at which
it goes on. -/
def loop (limit : Nat) (step : Nat → σ → Access (Option (Nat × σ))) (i : Nat) (s : σ) :
    Access (Nat × σ) :=
  if i < limit then
    match step i s with
    | .error fault => .error fault
    | .ok none => .ok (i, s)
    | .ok (some next) =>
      if i < next.1 then loop limit step next.1 next.2 else .error .stuck
  else .ok (i, s)
termination_by limit - i

/-- Past the limit, the loop has ended. -/
theorem loop_done (h : limit ≤ i) : loop limit step i s = .ok (i, s) := by
  rw [loop, if_neg (Nat.not_lt.2 h)]

theorem loop_break (hi : i < limit) (h : step i s = .ok none) :
    loop limit step i s = .ok (i, s) := by
  rw [loop, if_pos hi, h]

/-- A step that advances is followed by the rest of the loop. -/
theorem loop_next (hi : i < limit) (h : step i s = .ok (some (j, s'))) (hj : i < j) :
    loop limit step i s = loop limit step j s' := by
  rw [loop, if_pos hi, h]
  exact if_pos hj

end Loops

end SelectAlgebra.Checked
