import SelectAlgebra.Statement.Parts

/-!
# Where a run is broken

A run is broken in front of the first place from which a test holds.  The two parts are told by
three facts: they make up the run, the test holds from no place of the first part on, and it holds
from the start of the second part on unless that is empty.

Main results:

- Theorem `breakAt_eq_iff`: the three facts determine the parts.
- Theorem `free_opensAny`: where no keyword of a clause stands, no clause opens.
- Theorem `infix_body`: what a clause holds stands in one piece.
-/

namespace SelectAlgebra

namespace Run

/-- The test holds from no place of `a` on, when `b` follows `a`. -/
def Free (p : Run → Bool) : Run → Run → Prop
  | [], _ => True
  | x :: a, b => p (x :: (a ++ b)) = false ∧ Free p a b

instance decidableFree (p : Run → Bool) : (a b : Run) → Decidable (Free p a b)
  | [], _ => isTrue trivial
  | _ :: a, b =>
    have := decidableFree p a b
    inferInstanceAs (Decidable (_ ∧ _))

/-- The run is empty or the test holds from its start on. -/
def StopsBy (p : Run → Bool) (b : Run) : Prop :=
  b = [] ∨ p b = true

/-- Breaking a run gives the parts of which the second is the first place where the test holds. -/
theorem breakAt_eq_iff {p : Run → Bool} {r a b : Run} :
    breakAt p r = (a, b) ↔ r = a ++ b ∧ Free p a b ∧ StopsBy p b := by
  induction r generalizing a with
  | nil =>
    constructor
    · intro h
      rcases Prod.mk.inj h with ⟨rfl, rfl⟩
      exact ⟨rfl, trivial, Or.inl rfl⟩
    · rintro ⟨h, -, -⟩
      rcases List.append_eq_nil_iff.1 h.symm with ⟨rfl, rfl⟩
      rfl
  | cons x r ih =>
    rw [breakAt]
    by_cases hp : p (x :: r) = true
    · rw [if_pos hp]
      constructor
      · intro h
        rcases Prod.mk.inj h with ⟨rfl, rfl⟩
        exact ⟨rfl, trivial, Or.inr hp⟩
      · rintro ⟨happ, hfree, -⟩
        cases a with
        | nil => rw [List.nil_append] at happ; rw [happ]
        | cons y a =>
          rcases List.cons.inj happ with ⟨rfl, -⟩
          have happ' : r = a ++ b := (List.cons.inj happ).2
          rw [happ', hfree.1] at hp
          cases hp
    · rw [if_neg hp]
      constructor
      · intro h
        rcases Prod.mk.inj h with ⟨rfl, hb⟩
        rcases (ih (a := (breakAt p r).1)).1 (Prod.ext rfl hb) with ⟨happ, hfree, hstop⟩
        refine ⟨congrArg _ happ, ⟨?_, hfree⟩, hstop⟩
        rw [← happ]
        exact eq_false_of_ne_true hp
      · rintro ⟨happ, hfree, hstop⟩
        cases a with
        | nil =>
          rw [List.nil_append] at happ
          rcases hstop with rfl | hb
          · cases happ
          · rw [← happ] at hb
            exact absurd hb hp
        | cons y a =>
          rcases List.cons.inj happ with ⟨rfl, happ'⟩
          rw [(ih (a := a)).2 ⟨happ', hfree.2, hstop⟩]

/-- Breaking a run at a place that is known to be the first. -/
theorem breakAt_append_eq {p : Run → Bool} {a b : Run} (hfree : Free p a b) (hstop : StopsBy p b) :
    breakAt p (a ++ b) = (a, b) :=
  breakAt_eq_iff.2 ⟨rfl, hfree, hstop⟩

/-- A run is broken where a property holds first. -/
theorem breakAt_spec (p : Run → Bool) (r : Run) :
    Free p (breakAt p r).1 (breakAt p r).2 ∧ StopsBy p (breakAt p r).2 :=
  (breakAt_eq_iff.1 (Prod.ext rfl rfl)).2

/-- A run is broken by a test of one lexeme in front of the first lexeme that passes it. -/
theorem breakAt_head? (f : Placed → Bool) (r : Run) :
    breakAt (fun s => s.head?.any f) r =
      (r.takeWhile fun p => !f p, r.dropWhile fun p => !f p) := by
  induction r with
  | nil => rfl
  | cons p r ih =>
    rw [breakAt, ih]
    cases hp : f p <;> simp [hp]

/-- What stands from the break on is the end of the run. -/
theorem suffix_breakAt (p : Run → Bool) (r : Run) : (breakAt p r).2 <:+ r :=
  ⟨(breakAt p r).1, breakAt_append p r⟩

/-- What stands in front of the break is the start of the run. -/
theorem prefix_breakAt (p : Run → Bool) (r : Run) : (breakAt p r).1 <+: r :=
  ⟨(breakAt p r).2, breakAt_append p r⟩

/-- A property holds nowhere in two runs when it holds nowhere in either. -/
theorem free_append {p : Run → Bool} {a b c : Run} :
    Free p (a ++ b) c ↔ Free p a (b ++ c) ∧ Free p b c := by
  induction a with
  | nil => simp [Free]
  | cons x a ih => simp [Free, ih, and_assoc]

/-- Where a property holds nowhere, no stronger one does. -/
theorem Free.mono {p q : Run → Bool} {a b : Run} (h : Free q a b)
    (hpq : ∀ r, p r = true → q r = true) : Free p a b := by
  induction a with
  | nil => trivial
  | cons x a ih =>
    refine ⟨?_, ih h.2⟩
    cases hp : p (x :: (a ++ b)) with
    | false => rfl
    | true =>
      have := h.1
      rw [hpq _ hp] at this
      cases this

/-- A test that only looks at the first lexeme holds nowhere when no lexeme passes it. -/
theorem free_of_forall {p : Run → Bool} {f : Placed → Bool} {a : Run} (b : Run)
    (hp : ∀ x r, p (x :: r) = true → f x = true) (h : ∀ x ∈ a, f x = false) : Free p a b := by
  induction a with
  | nil => trivial
  | cons x a ih =>
    refine ⟨?_, ih fun y hy => h y (by simp [hy])⟩
    cases hx : p (x :: (a ++ b)) with
    | false => rfl
    | true =>
      have := hp _ _ hx
      rw [h x (by simp)] at this
      cases this

theorem startsWith_cons (word : String) (p : Placed) (r : Run) :
    startsWith word (p :: r) = p.isTopKeyword word := by
  simp [startsWith]

/-- A run is free of a keyword when the keyword does not stand in it outside parentheses. -/
theorem free_startsWith_iff {word : String} {a b : Run} :
    Free (startsWith word) a b ↔ ∀ p ∈ a, p.isTopKeyword word = false := by
  induction a with
  | nil => simp [Free]
  | cons x a ih => simp [Free, ih, startsWith_cons]

@[simp]
theorem startsWith_nil (word : String) : startsWith word [] = false :=
  rfl

/-- Where no keyword stands, nothing is passed over. -/
theorem skipKeyword_of_false {word : String} {r : Run} (h : startsWith word r = false) :
    skipKeyword word r = r := by
  simp [skipKeyword, h]

/-- A keyword is passed over. -/
theorem skipKeyword_cons {word : String} {p : Placed} {r : Run} (h : p.isTopKeyword word = true) :
    skipKeyword word (p :: r) = r := by
  simp [skipKeyword, startsWith_cons, h]

/-- Passing over a keyword adds no token. -/
theorem skipKeyword_subset (word : String) (r : Run) : skipKeyword word r ⊆ r := by
  unfold skipKeyword
  split
  · exact fun p hp => List.mem_of_mem_tail hp
  · exact fun p hp => hp

end Run

/-! ## Keywords -/

namespace Token

/-- A word is one keyword at most. -/
theorem isKeyword_unique {t : Token} {a b : String} (ha : t.isKeyword a = true)
    (hb : t.isKeyword b = true) : Text.lower a.toList = Text.lower b.toList := by
  simp only [isKeyword, Bool.and_eq_true, Text.sameLetters_iff] at ha hb
  exact ha.2.symm.trans hb.2

/-- No token is two keywords. -/
theorem isKeyword_of_ne {t : Token} {a b : String} (ha : t.isKeyword a = true)
    (hne : Text.lower a.toList ≠ Text.lower b.toList) : t.isKeyword b = false := by
  cases hb : t.isKeyword b with
  | false => rfl
  | true => exact absurd (isKeyword_unique ha hb) hne

/-- A keyword is a word. -/
theorem kind_of_isKeyword {t : Token} {a : String} (h : t.isKeyword a = true) : t.kind = .word := by
  simp only [isKeyword, Bool.and_eq_true, beq_iff_eq] at h
  exact h.1

end Token

namespace Placed

/-- A keyword is found outside parentheses alone. -/
theorem isTopKeyword_iff {p : Placed} {word : String} :
    p.isTopKeyword word = true ↔ p.depth = 0 ∧ p.token.isKeyword word = true := by
  simp [isTopKeyword]

/-- No token is two keywords outside parentheses. -/
theorem isTopKeyword_of_ne {p : Placed} {a b : String} (ha : p.isTopKeyword a = true)
    (hne : Text.lower a.toList ≠ Text.lower b.toList) : p.isTopKeyword b = false := by
  cases hb : p.isTopKeyword b with
  | false => rfl
  | true =>
    rw [isTopKeyword_iff] at ha hb
    exact absurd (Token.isKeyword_unique ha.2 hb.2) hne

end Placed

/-! ## Openings of clauses -/

namespace Clause

/-- The words with which a clause of the kind can start. -/
def openers : Clause → List String
  | join => ["JOIN", "INNER", "LEFT", "RIGHT", "FULL"]
  | condition => ["WHERE"]
  | grouping => ["GROUP"]
  | having => ["HAVING"]
  | ordering => ["ORDER"]

/-- A clause of the kind opens with one of its words. -/
theorem mem_openers_of_opens {c : Clause} {p : Placed} {r : Run} (h : c.opens (p :: r) = true) :
    ∃ word ∈ c.openers, p.isTopKeyword word = true := by
  cases c with
  | join =>
    simp only [opens, joinPhrase?] at h
    split at h
    · rename_i hj
      rw [Run.startsWith_cons] at hj
      exact ⟨"JOIN", by simp [openers], hj⟩
    · split at h
      · cases h
      · rename_i kind hkind
        have hk := List.find?_some hkind
        rw [Run.startsWith_cons] at hk
        exact ⟨kind.keyword, by cases kind <;> simp [openers, JoinKind.keyword], hk⟩
  | condition | having =>
    rw [opens, Run.startsWith_cons] at h
    exact ⟨_, by simp [openers], h⟩
  | grouping | ordering =>
    rw [opens, startsWithPair, Bool.and_eq_true, Run.startsWith_cons] at h
    exact ⟨_, by simp [openers], h.1⟩

/-- Passing over OUTER adds no token. -/
theorem skipOuter_subset (kind : JoinKind) (r : Run) : skipOuter kind r ⊆ r := by
  unfold skipOuter
  split
  · exact fun p hp => hp
  · exact Run.skipKeyword_subset "OUTER" r

/-- One of several clauses opens when there is one that opens. -/
theorem opensAny_iff {cs : List Clause} {r : Run} :
    opensAny cs r = true ↔ ∃ c ∈ cs, c.opens r = true := by
  simp [opensAny]

/-- Where no word of the kinds of clause stands outside parentheses, no such clause opens. -/
theorem free_opensAny {cs : List Clause} {a : Run} (b : Run)
    (h : ∀ p ∈ a, ∀ c ∈ cs, ∀ word ∈ c.openers, p.isTopKeyword word = false) :
    Run.Free (opensAny cs) a b := by
  refine Run.free_of_forall (f := fun p => cs.any fun c => c.openers.any p.isTopKeyword) b ?_ ?_
  · intro p r hp
    rcases opensAny_iff.1 hp with ⟨c, hc, hopen⟩
    rcases mem_openers_of_opens hopen with ⟨word, hword, hp⟩
    simp only [List.any_eq_true]
    exact ⟨c, hc, word, hword, hp⟩
  · intro p hp
    simp only [List.any_eq_false, Bool.not_eq_true]
    exact h p hp

/-- A clause opens nowhere among tokens that are none of its openers. -/
theorem free_opens {c : Clause} {a : Run} (b : Run)
    (h : ∀ p ∈ a, ∀ word ∈ c.openers, p.isTopKeyword word = false) : Run.Free c.opens a b :=
  (free_opensAny b fun p hp d hd => by
      rw [List.mem_singleton] at hd
      exact hd ▸ h p hp : Run.Free (opensAny [c]) a b).mono fun r hr => by
    simp [opensAny, hr]

/-- What a clause holds stands in one piece. -/
theorem infix_body (c : Clause) (r : Run) : c.body r <:+: r := by
  have hopened : (Run.breakAt c.opens r).2.drop c.phraseLength <:+ r :=
    (List.drop_suffix _ _).trans (Run.suffix_breakAt c.opens r)
  exact (Run.prefix_breakAt (opensAny c.enders) _).isInfix.trans hopened.isInfix

end Clause

end SelectAlgebra
