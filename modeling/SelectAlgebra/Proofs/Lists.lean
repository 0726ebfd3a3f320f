import Mathlib.Data.List.Forall2

/-!
# Lists

Facts about lists of anything, which the theory of the program uses and which say nothing of it.

Main results:

- Theorem `takeWhile_dropWhile_iff`: where a list stops having a property.
- Theorem `mem_of_mem_splitOnP` and `not_sep_of_mem_splitOnP`: what the pieces of a list hold.
- Theorem `lookup_eq_some_iff_mem` and `lookup_keyed_iff`: what is found under a key.
- Theorem `find?_eq_of_agree`: which elements decide what is found.
-/

namespace List

variable {α β : Type}

/-! ## Parts of lists -/

/-- The length of a list around one of its elements. -/
theorem length_append_cons (front : List α) (x : α) (behind : List α) :
    (front ++ x :: behind).length = front.length + 1 + behind.length := by
  rw [length_append, length_cons]
  omega

/-- Lists of one length are empty together. -/
theorem isEmpty_eq_of_length_eq {xs ys : List α} (h : ys.length = xs.length) :
    ys.isEmpty = xs.isEmpty := by
  rw [Bool.eq_iff_iff, isEmpty_iff_length_eq_zero, isEmpty_iff_length_eq_zero, h]

/-- What stands at the front of a list does not depend on what follows its first element. -/
theorem head?_exchange (w : List α) (x : α) (v v' : List α) :
    (w ++ x :: v).head? = (w ++ x :: v').head? := by
  cases w <;> rfl

/-- A list starts with a property when both of its parts do. -/
theorem head?_append_all {P : α → Prop} {w b : List α} (hw : ∀ c ∈ w.head?, P c)
    (hb : ∀ c ∈ b.head?, P c) : ∀ c ∈ (w ++ b).head?, P c := by
  cases w with
  | nil => exact hb
  | cons d ds => exact hw

/-- The front part of a list starts as the list does. -/
theorem head?_front {P : α → Prop} {w v : List α} (h : ∀ c ∈ (w ++ v).head?, P c) :
    ∀ c ∈ w.head?, P c := by
  cases w with
  | nil => simp
  | cons d ds => exact h

/-- A list in front of an element that ends a longer list is found again in that list. -/
theorem eq_append_of_append_cons {x : α} {u s w v : List α}
    (h : s ++ (w ++ x :: v) = u ++ x :: v) : u = s ++ w :=
  append_cancel_right (h.symm.trans (append_assoc s w (x :: v)).symm)

/-- An element of two lists in a row stands in one of them. -/
theorem exists_of_append_eq {xs ys before after : List α} {c : α}
    (h : xs ++ ys = before ++ c :: after) :
    (∃ d, xs = before ++ c :: d) ∨ ∃ d, before = xs ++ d ∧ ys = d ++ c :: after := by
  rcases append_eq_append_iff.1 h with ⟨d, hbefore, hys⟩ | ⟨d, hxs, hc⟩
  · exact Or.inr ⟨d, hbefore, hys⟩
  · cases d with
    | nil => exact Or.inr ⟨[], by simpa using hxs.symm, hc.symm⟩
    | cons x d => exact Or.inl ⟨d, by rw [hxs, (cons.inj hc).1]⟩

/-- The parts of a list at the first element without a property. -/
theorem takeWhile_dropWhile_iff {p : α → Bool} {cs s r : List α} :
    (cs.takeWhile p = s ∧ cs.dropWhile p = r) ↔
      cs = s ++ r ∧ (∀ c ∈ s, p c = true) ∧ ∀ c ∈ r.head?, p c = false := by
  constructor
  · rintro ⟨rfl, rfl⟩
    refine ⟨takeWhile_append_dropWhile.symm, fun c hc => ?_, fun c hc => ?_⟩
    · exact all_eq_true.1 (all_takeWhile (l := cs)) c hc
    · exact eq_false_of_ne_true fun h => by
        have := head?_dropWhile_not p cs
        rw [hc] at this
        simp [h] at this
  · rintro ⟨rfl, hs, hr⟩
    rw [takeWhile_append_of_pos hs, dropWhile_append_of_pos hs]
    cases r with
    | nil => simp
    | cons c r => simp [hr c rfl]

/-! ## Pieces -/

/-- What a piece of a list holds, the list holds. -/
theorem mem_of_mem_splitOnP {p : α → Bool} {xs w : List α} {x : α} (hw : w ∈ xs.splitOnP p)
    (hx : x ∈ w) : x ∈ xs := by
  induction xs generalizing w with
  | nil => simp_all [splitOnP_nil]
  | cons y ys ih =>
    rw [splitOnP_cons_eq_if_modifyHead] at hw
    split at hw
    · rcases mem_cons.1 hw with rfl | hw
      · simp at hx
      · exact mem_cons_of_mem y (ih hw hx)
    · rcases exists_cons_of_ne_nil (splitOnP_ne_nil p ys) with ⟨v, vs, hs⟩
      rw [hs, modifyHead_cons] at hw
      rcases mem_cons.1 hw with rfl | hw
      · rcases mem_cons.1 hx with rfl | hx
        · exact mem_cons_self
        · exact mem_cons_of_mem y (ih (by simp [hs]) hx)
      · exact mem_cons_of_mem y (ih (by simp [hs, hw]) hx)

/-- No piece of a list holds a separator. -/
theorem not_sep_of_mem_splitOnP {p : α → Bool} {xs w : List α} {x : α} (hw : w ∈ xs.splitOnP p)
    (hx : x ∈ w) : p x = false := by
  induction xs generalizing w with
  | nil => simp_all [splitOnP_nil]
  | cons y ys ih =>
    rw [splitOnP_cons_eq_if_modifyHead] at hw
    split at hw
    · rcases mem_cons.1 hw with rfl | hw
      · simp at hx
      · exact ih hw hx
    · rename_i hy
      rcases exists_cons_of_ne_nil (splitOnP_ne_nil p ys) with ⟨v, vs, hs⟩
      rw [hs, modifyHead_cons] at hw
      rcases mem_cons.1 hw with rfl | hw
      · rcases mem_cons.1 hx with rfl | hx
        · simpa using hy
        · exact ih (by simp [hs]) hx
      · exact ih (by simp [hs, hw]) hx

/-! ## What is found in a list -/

/-- The first element with a property is a matter of the elements up to it. -/
theorem find?_eq_of_agree {p q : α → Bool} {l : List α}
    (h : ∀ a ∈ l.takeWhile (fun a => !p a) ++ (l.find? p).toList, q a = p a) :
    l.find? q = l.find? p := by
  induction l with
  | nil => rfl
  | cons a l ih =>
    by_cases ha : p a = true
    · have hqa : q a = p a := h a (by simp [ha])
      rw [find?_cons_of_pos ha, find?_cons_of_pos (hqa.trans ha)]
    · have hqa : q a = p a := h a (by simp [ha])
      have hagree : ∀ b ∈ l.takeWhile (fun b => !p b) ++ (l.find? p).toList, q b = p b := by
        intro b hb
        apply h b
        rw [takeWhile_cons_of_pos (by simp [ha]), find?_cons_of_neg ha]
        exact mem_cons_of_mem a hb
      rw [find?_cons_of_neg ha, find?_cons_of_neg (by rwa [hqa])]
      exact ih hagree

/-- A key that stands in a list once is looked up by membership. -/
theorem lookup_eq_some_iff_mem [BEq α] [LawfulBEq α] {entries : List (α × β)} {key : α} {b : β}
    (h : (entries.map Prod.fst).Nodup) : entries.lookup key = some b ↔ (key, b) ∈ entries := by
  induction entries with
  | nil => simp
  | cons entry entries ih =>
    obtain ⟨k, c⟩ := entry
    rw [map_cons, nodup_cons] at h
    by_cases hk : key = k
    · subst hk
      have hmem : (key, b) ∉ entries := fun hb => h.1 (mem_map.2 ⟨_, hb, rfl⟩)
      simp [hmem, eq_comm]
    · simp [lookup_cons, beq_false_of_ne hk, hk, ih h.2]

/-- An entry under another key does not change what is looked up. -/
theorem lookup_append_cons_of_ne [BEq α] [LawfulBEq α] {front back : List (α × β)} {key k : α}
    {b : β} (h : key ≠ k) : (front ++ (k, b) :: back).lookup key = (front ++ back).lookup key := by
  rw [lookup_append, lookup_append, lookup_cons, beq_false_of_ne h]

/-- A value is found under its key in a list of values by their keys. -/
theorem lookup_keyed_iff [BEq β] [LawfulBEq β] {key : α → β} (hkey : key.Injective)
    {values : List α} {k : β} {a : α} :
    (values.map fun b => (key b, b)).lookup k = some a ↔ a ∈ values ∧ k = key a := by
  induction values with
  | nil => simp
  | cons b values ih =>
    rw [map_cons, lookup_cons]
    by_cases hb : k = key b
    · subst hb
      simp only [beq_self_eq_true, Option.some.injEq, mem_cons]
      constructor
      · rintro rfl
        exact ⟨Or.inl rfl, rfl⟩
      · rintro ⟨-, h⟩
        exact hkey h
    · simp only [beq_false_of_ne hb, ih, mem_cons]
      constructor
      · rintro ⟨ha, rfl⟩
        exact ⟨Or.inr ha, rfl⟩
      · rintro ⟨rfl | ha, h⟩
        · exact absurd h hb
        · exact ⟨ha, h⟩

/-! ## Lists entry by entry -/

/-- What is made of the elements by their places, the first one first. -/
theorem flatMap_zipIdx_cons (f : α × Nat → List β) (a : α) (l : List α) :
    (a :: l).zipIdx.flatMap f = f (a, 0) ++ l.zipIdx.flatMap fun x => f (x.1, x.2 + 1) := by
  rw [zipIdx_cons, flatMap_cons, zipIdx_eq_map_add, flatMap_map]
  simp only [Nat.add_comm]

/-- A list is read when each of its elements is. -/
theorem mapM_eq_some_iff {read : α → Option β} {vs : List α} {xs : List β} :
    vs.mapM read = some xs ↔ Forall₂ (fun x v => read v = some x) xs vs := by
  induction vs generalizing xs with
  | nil => cases xs <;> simp
  | cons v vs ih =>
    simp only [mapM_cons, Option.pure_def, Option.bind_eq_bind, Option.bind_eq_some_iff,
      Option.some.injEq]
    cases xs with
    | nil => simp
    | cons x xs =>
      simp only [forall₂_cons, ← ih, cons.injEq]
      constructor
      · rintro ⟨y, hy, ys, hys, rfl, rfl⟩
        exact ⟨hy, hys⟩
      · rintro ⟨hx, hxs⟩
        exact ⟨x, hx, xs, hxs, rfl, rfl⟩

/-- What is read from every element of a list stands beside the list. -/
theorem forall₂_filterMap {f : α → Option β} {l : List α} (h : ∀ a ∈ l, (f a).isSome = true) :
    Forall₂ (fun a b => f a = some b) l (l.filterMap f) := by
  induction l with
  | nil => exact .nil
  | cons a l ih =>
    obtain ⟨b, hb⟩ := Option.isSome_iff_exists.1 (h a mem_cons_self)
    rw [filterMap_cons_some hb]
    exact .cons hb (ih fun x hx => h x (mem_cons_of_mem a hx))

/-- Lists with the same images under a map are related entry by entry. -/
theorem forall₂_of_map_eq {R : α → α → Prop} {f : α → β} {xs ys : List α}
    (hR : ∀ x ∈ xs, ∀ y ∈ ys, f y = f x → R x y) (h : ys.map f = xs.map f) : Forall₂ R xs ys := by
  induction xs generalizing ys with
  | nil =>
    rw [map_nil, map_eq_nil_iff] at h
    rw [h]
    exact .nil
  | cons x xs ih =>
    cases ys with
    | nil => cases h
    | cons y ys =>
      rw [map_cons, map_cons, cons.injEq] at h
      exact .cons (hR x (by simp) y (by simp) h.1)
        (ih (fun a ha b hb => hR a (by simp [ha]) b (by simp [hb])) h.2)

end List
