import SelectAlgebra.Proofs.Statement.Names

/-!
# The clauses behind the joins

The clauses of a statement are found one by one, each by a scan of its own over all that follows
the FROM list.  When they stand in their order, each at most once, and hold no word with which a
clause opens, every scan stops where its clause starts and ends it where the next one starts.

Main results:

- Theorem `Clause.body_append`: the body of a clause that stands in front of what ends it.
- Theorem `Section.body_eq`: every scan over ordered sections gives the content of its section.
-/

namespace SelectAlgebra

namespace Clause

/-- None of the words with which a clause of the kind opens stands in the run. -/
def AbsentFrom (c : Clause) (r : Run) : Prop :=
  ∀ p ∈ r, ∀ word ∈ c.openers, p.isTopKeyword word = false

/-- A clause that opens in neither of two runs does not open in both. -/
theorem AbsentFrom.append {c : Clause} {r s : Run} (hr : c.AbsentFrom r) (hs : c.AbsentFrom s) :
    c.AbsentFrom (r ++ s) := by
  intro p hp
  rcases List.mem_append.1 hp with hp | hp
  · exact hr p hp
  · exact hs p hp

/-- Where no token opens a clause, a given clause is absent. -/
theorem absentFrom_of_opensNone {r : Run} (c : Clause) (h : ∀ p ∈ r, p.OpensNone) :
    c.AbsentFrom r :=
  fun p hp => h p hp c

/-- The body of a clause that does not open is empty. -/
theorem body_of_absent {c : Clause} {r : Run} (h : c.AbsentFrom r) : c.body r = [] := by
  have hbreak : Run.breakAt c.opens r = (r, []) := by
    have := Run.breakAt_append_eq (free_opens [] h) (Or.inl rfl)
    rwa [List.append_nil] at this
  rw [body, hbreak]
  simp [Run.breakAt]

/-- The body of a clause reaches from its words to the first clause that ends it. -/
theorem body_append {c : Clause} {front words content rest : Run} (hfront : c.AbsentFrom front)
    (hopens : c.opens (words ++ (content ++ rest)) = true)
    (hwords : words.length = c.phraseLength)
    (hcontent : Run.Free (opensAny c.enders) content rest)
    (hrest : Run.StopsBy (opensAny c.enders) rest) :
    c.body (front ++ (words ++ (content ++ rest))) = content := by
  have hbreak := Run.breakAt_append_eq (free_opens (words ++ (content ++ rest)) hfront)
    (Or.inr hopens)
  have hdrop : (words ++ (content ++ rest)).drop c.phraseLength = content ++ rest := by
    rw [← hwords, List.drop_left]
  rw [body, hbreak]
  dsimp only
  rw [hdrop, Run.breakAt_append_eq hcontent hrest]

end Clause

/-! ## Sections -/

/-- A clause with the words that open it and what it holds. -/
structure Section where
  clause : Clause
  words : Run
  content : Run

namespace Section

def run (s : Section) : Run :=
  s.words ++ s.content

def runAll (ss : List Section) : Run :=
  ss.flatMap run

/-- The words open the clause, whatever follows, and no word with which another clause opens
stands in the section. -/
structure Valid (s : Section) : Prop where
  opens : ∀ r, s.clause.opens (s.words ++ r) = true
  length : s.words.length = s.clause.phraseLength
  foreign : ∀ c, c ≠ s.clause → c.AbsentFrom s.words
  content : ∀ p ∈ s.content, p.OpensNone

/-- Every section is ended by each section behind it, and by no section of its own kind. -/
def Ordered (ss : List Section) : Prop :=
  ss.Pairwise fun s t => t.clause ∈ s.clause.enders ∧ s.clause ≠ t.clause

/-- A row of sections starts with one of their clauses, or is empty. -/
theorem stopsBy_runAll {cs : List Clause} {ss : List Section} (hvalid : ∀ s ∈ ss, s.Valid)
    (hcs : ∀ s ∈ ss, s.clause ∈ cs) : Run.StopsBy (Clause.opensAny cs) (runAll ss) := by
  cases ss with
  | nil => exact Or.inl rfl
  | cons s ss =>
    right
    have hopens := (hvalid s (by simp)).opens (s.content ++ runAll ss)
    rw [runAll, List.flatMap_cons, run, List.append_assoc]
    exact Clause.opensAny_iff.2 ⟨s.clause, hcs s (by simp), hopens⟩

/-- Every scan gives the content of its own section, or nothing when there is none. -/
theorem body_eq {c : Clause} {front : Run} {ss : List Section} (hfront : c.AbsentFrom front)
    (hvalid : ∀ s ∈ ss, s.Valid) (hordered : Ordered ss) :
    c.body (front ++ runAll ss) = ((ss.find? fun s => s.clause == c).map content).getD [] := by
  induction ss generalizing front with
  | nil =>
    rw [runAll, List.flatMap_nil, List.append_nil]
    exact Clause.body_of_absent hfront
  | cons s ss ih =>
    have hs := hvalid s (by simp)
    have hss : ∀ t ∈ ss, t.Valid := fun t ht => hvalid t (by simp [ht])
    rcases List.pairwise_cons.1 hordered with ⟨hbehind, htail⟩
    have hsplit : runAll (s :: ss) = s.words ++ (s.content ++ runAll ss) := by
      rw [runAll, List.flatMap_cons, run, List.append_assoc]
      rfl
    by_cases hc : s.clause = c
    · subst hc
      have hstop := stopsBy_runAll hss fun t ht => (hbehind t ht).1
      have hfree : Run.Free (Clause.opensAny s.clause.enders) s.content (runAll ss) :=
        Run.free_opensAny_of_opensNone _ hs.content
      rw [hsplit, Clause.body_append hfront (hs.opens _) hs.length hfree hstop]
      simp
    · have habsent : c.AbsentFrom (front ++ s.run) := by
        apply hfront.append
        apply Clause.AbsentFrom.append
        · exact hs.foreign c (Ne.symm hc)
        · exact Clause.absentFrom_of_opensNone c hs.content
      have hassoc : front ++ runAll (s :: ss) = front ++ s.run ++ runAll ss := by
        rw [hsplit, run]
        simp only [List.append_assoc]
      have hfind : (s.clause == c) = false := by simpa using hc
      rw [hassoc, ih habsent hss htail, List.find?_cons, hfind]

end Section

end SelectAlgebra
