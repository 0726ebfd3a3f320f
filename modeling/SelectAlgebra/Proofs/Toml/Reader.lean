import SelectAlgebra.Proofs.Lists
import SelectAlgebra.Toml.Reader

/-!
# Laws of readers

What a reader takes off the front of a text is put together from what its parts take.  A reader of
several values stops at the first text that it refuses, so its bound does not show.

Main results:

- Theorem `bind_of_some` and `orElse_of_none`: readers one after the other, and one in place of the
  other.
- Theorem `run_append`: characters of a class are taken up to the first that is not of the class.
- Theorem `many_of_gives`: values are read one after the other, until the reader refuses.
-/

namespace SelectAlgebra.Toml.Reader

/-! ## One after the other -/

variable {α β : Type} {r r' : Reader α} {cs cs' rest : List Char} {a : α}

/-- What is read first decides what reads the text behind it. -/
theorem bind_of_some (h : r cs = some (a, cs')) (f : α → Reader β) :
    (r >>= f) cs = f a cs' := by
  change (r cs).bind _ = _
  rw [h, Option.bind_some]

/-- Nothing is read behind a text that is refused. -/
theorem bind_of_none (h : r cs = none) (f : α → Reader β) : (r >>= f) cs = none := by
  change (r cs).bind _ = _
  rw [h, Option.bind_none]

/-- The first choice is taken where it reads something. -/
theorem orElse_of_some (h : r cs = some (a, cs')) : (r <|> r') cs = some (a, cs') := by
  change (r cs <|> r' cs) = _
  rw [h]
  rfl

/-- The second choice reads the same text where the first one refuses it. -/
theorem orElse_of_none (h : r cs = none) : (r <|> r') cs = r' cs := by
  change (r cs <|> r' cs) = _
  rw [h]
  rfl

/-- What can be read is skipped. -/
theorem skip_of_some (h : r cs = some (a, cs')) : skip r cs = some ((), cs') := by
  have hoptional : (optional r) cs = some (some a, cs') := by
    apply orElse_of_some
    change (r cs).bind _ = _
    rw [h]
    rfl
  rw [skip, bind_of_some hoptional]
  rfl

/-- Nothing is skipped where nothing can be read. -/
theorem skip_of_none (h : r cs = none) : skip r cs = some ((), cs) := by
  have hoptional : (optional r) cs = some (none, cs) := by
    apply orElse_of_none
    change (r cs).bind _ = _
    rw [h]
    rfl
  rw [skip, bind_of_some hoptional]
  rfl

/-- A condition that holds takes nothing. -/
theorem require_of_true {condition : Bool} (h : condition = true) :
    require condition cs = some ((), cs) := by
  rw [require, if_pos h]

/-- A condition that does not hold refuses. -/
theorem require_of_false {condition : Bool} (h : condition = false) :
    require condition cs = none := by
  rw [require, if_neg (by simp [h])]

/-! ## Characters -/

/-- A character of the class is taken. -/
theorem one_cons {p : Char → Bool} {c : Char} (h : p c = true) :
    one p (c :: cs) = some (c, cs) := by
  rw [one, if_pos h]

/-- A text that does not start with a character of the class is refused. -/
theorem one_of_head? {p : Char → Bool} (h : ∀ c ∈ cs.head?, p c = false) : one p cs = none := by
  cases cs with
  | nil => rfl
  | cons c cs => rw [one, if_neg (by simp [h c rfl])]

/-- The given character is taken. -/
theorem char_cons (c : Char) (cs : List Char) : char c (c :: cs) = some ((), cs) := by
  have hone : one (fun x => x == c) (c :: cs) = some (c, cs) := one_cons (beq_self_eq_true c)
  rw [char, bind_of_some hone]
  rfl

/-- Any other character is refused, and so is the end of the text. -/
theorem char_of_head? {c : Char} (h : ∀ d ∈ cs.head?, d ≠ c) : char c cs = none :=
  bind_of_none (one_of_head? fun d hd => by simpa using h d hd) _

/-- The given text is taken. -/
theorem word_append (w : String) (cs : List Char) : word w (w.toList ++ cs) = some ((), cs) := by
  simp [word]

/-- A text that does not start with the given one is refused. -/
theorem word_of_not_isPrefix {w : String} (h : ¬ w.toList <+: cs) : word w cs = none := by
  rw [word, if_neg (by rwa [List.isPrefixOf_iff_prefix])]

variable {p : Char → Bool} {w : List Char}

/-- All characters of a class are taken, up to the first that is not of the class. -/
theorem run_append (hw : ∀ c ∈ w, p c = true) (hrest : ∀ c ∈ rest.head?, p c = false) :
    run p (w ++ rest) = some (w, rest) := by
  obtain ⟨htake, hdrop⟩ := List.takeWhile_dropWhile_iff.2 ⟨rfl, hw, hrest⟩
  rw [run, htake, hdrop]

/-- At least one character of the class has to be there. -/
theorem run1_append (hne : w ≠ []) (hw : ∀ c ∈ w, p c = true)
    (hrest : ∀ c ∈ rest.head?, p c = false) : run1 p (w ++ rest) = some (w, rest) := by
  have hfilled : (!w.isEmpty) = true := by simpa using hne
  rw [run1, bind_of_some (run_append hw hrest), bind_of_some (require_of_true hfilled)]
  rfl

/-- A text that does not start with a character of the class is refused. -/
theorem run1_of_head? (hrest : ∀ c ∈ rest.head?, p c = false) : run1 p rest = none := by
  have hrun : run p rest = some ([], rest) := run_append (w := []) (by simp) hrest
  rw [run1, bind_of_some hrun]
  exact bind_of_none (require_of_false rfl) _

/-- So many characters of the class are taken as there are. -/
theorem exactly_append (hw : ∀ c ∈ w, p c = true) (rest : List Char) :
    exactly p w.length (w ++ rest) = some (w, rest) := by
  induction w with
  | nil => rfl
  | cons c w ih =>
    rw [List.forall_mem_cons] at hw
    rw [List.length_cons, List.cons_append, exactly, bind_of_some (one_cons hw.1),
      bind_of_some (ih hw.2)]
    rfl

/-- Too few characters of the class are refused. -/
theorem exactly_of_few {n : Nat} (hw : ∀ c ∈ w, p c = true) (hn : w.length < n)
    (hrest : ∀ c ∈ rest.head?, p c = false) : exactly p n (w ++ rest) = none := by
  induction w generalizing n with
  | nil =>
    obtain ⟨n, rfl⟩ := Nat.exists_eq_succ_of_ne_zero (Nat.ne_of_gt hn)
    exact bind_of_none (one_of_head? hrest) _
  | cons c w ih =>
    obtain ⟨n, rfl⟩ := Nat.exists_eq_succ_of_ne_zero (Nat.ne_zero_of_lt hn)
    rw [List.forall_mem_cons] at hw
    rw [List.cons_append, exactly, bind_of_some (one_cons hw.1),
      bind_of_none (ih hw.2 (Nat.lt_of_succ_lt_succ hn))]

/-! ## Several values -/

/-- A text gives values one after the other, each of which takes some of it, until the reader
refuses the rest. -/
inductive Gives (r : Reader α) (rest : List Char) : List α → List Char → Prop
  | none (h : r rest = none) : Gives r rest [] rest
  | cons {a : α} {as : List α} {cs cs' : List Char} (h : r cs = some (a, cs'))
    (hlength : cs'.length < cs.length) (has : Gives r rest as cs') : Gives r rest (a :: as) cs

variable {as : List α}

/-- The values that a text gives are found within any bound that it does not exceed. -/
theorem upTo_of_gives (h : Gives r rest as cs) {bound : Nat} (hbound : cs.length ≤ bound) :
    upTo bound r cs = some (as, rest) := by
  induction h generalizing bound with
  | none h =>
    cases bound with
    | zero => rfl
    | succ n =>
      rw [upTo, orElse_of_none (bind_of_none h _)]
      rfl
  | cons h hlength has ih =>
    cases bound with
    | zero => omega
    | succ n =>
      rw [upTo]
      apply orElse_of_some
      rw [bind_of_some h, bind_of_some (ih (by omega))]
      rfl

/-- As many values are read as the text gives. -/
theorem many_of_gives (h : Gives r rest as cs) : many r cs = some (as, rest) :=
  upTo_of_gives h (Nat.le_refl _)

/-- A first value is read, and then the others behind their separators. -/
theorem separated_of_gives {separator : Reader Unit} (h : r cs = some (a, cs'))
    (has : Gives (do separator; r) rest as cs') :
    separated r separator cs = some (a :: as, rest) := by
  rw [separated, bind_of_some h, bind_of_some (many_of_gives has)]
  rfl

end SelectAlgebra.Toml.Reader
