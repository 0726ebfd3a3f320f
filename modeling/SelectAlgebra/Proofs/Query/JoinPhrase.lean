import SelectAlgebra.Proofs.Statement.Names
import SelectAlgebra.Query.Joins

/-!
# Join phrases

A join phrase is the words that spell a kind of join and a body.  The body is complete when it has
a table, an optional alias, ON and a condition.  It can also have no table, no ON, a USING list in
the place of ON, or no condition.

Main results:

- Theorem `JoinWords.joinPhrase?_append`: the words of a phrase are read as their kind.
- Theorem `JoinBody.free_join`: no other phrase opens inside a body.
- Theorem `Join.readBody_onCondition`: a complete body is read whole, and nothing behind it.
-/

namespace SelectAlgebra

/-! ## The words of a phrase -/

/-- JOIN alone, the keyword of a kind and JOIN, or the keyword, OUTER and JOIN. -/
inductive JoinWords where
  | bare (join : Placed)
  | named (kind : JoinKind) (word join : Placed)
  | withOuter (kind : JoinKind) (word outer join : Placed)

namespace JoinWords

def run : JoinWords → Run
  | bare join => [join]
  | named _ word join => [word, join]
  | withOuter _ word outer join => [word, outer, join]

/-- The kind of join that the words name. -/
def kind : JoinWords → JoinKind
  | bare _ => .inner
  | named kind _ _ => kind
  | withOuter kind _ _ _ => kind

/-- The lexemes are the keywords they stand for, outside parentheses. -/
def Spelled : JoinWords → Prop
  | bare join => join.isTopKeyword "JOIN" = true
  | named kind word join =>
    word.isTopKeyword kind.keyword = true ∧ join.isTopKeyword "JOIN" = true
  | withOuter kind word outer join =>
    kind ≠ .inner ∧ word.isTopKeyword kind.keyword = true ∧ outer.isTopKeyword "OUTER" = true ∧
      join.isTopKeyword "JOIN" = true

/-- The word for the kind of a join is followed by JOIN, with OUTER in between or not. -/
theorem joinPhrase?_cons {kind : JoinKind} {p : Placed} (r : Run)
    (h : p.isTopKeyword kind.keyword = true) :
    Clause.joinPhrase? (p :: r) =
      if Run.startsWith "JOIN" (Clause.skipOuter kind r) then
        some (kind, (Clause.skipOuter kind r).tail)
      else none := by
  have hjoin : p.isTopKeyword "JOIN" = false :=
    Placed.isTopKeyword_of_ne h (by cases kind <;> decide)
  have hkind : Clause.joinKind? (p :: r) = some kind := by
    have hother : ∀ k : JoinKind, k ≠ kind → p.isTopKeyword k.keyword = false := fun k hk =>
      Placed.isTopKeyword_of_ne h (by revert hk; cases k <;> cases kind <;> decide)
    cases kind <;>
      simp_all [Clause.joinKind?, JoinKind.all, Run.startsWith_cons]
  simp only [Clause.joinPhrase?, Run.startsWith_cons, hjoin, hkind, List.tail_cons,
    Bool.false_eq_true, if_false]
  rfl

/-- In front of JOIN no OUTER is passed over. -/
theorem skipOuter_of_join (kind : JoinKind) {j : Placed} (r : Run)
    (hj : j.isTopKeyword "JOIN" = true) : Clause.skipOuter kind (j :: r) = j :: r := by
  have houter : Run.startsWith "OUTER" (j :: r) = false := by
    rw [Run.startsWith_cons]
    exact Placed.isTopKeyword_of_ne hj (by decide)
  unfold Clause.skipOuter
  split
  · rfl
  · exact Run.skipKeyword_of_false houter

/-- JOIN by itself is an inner join. -/
theorem joinPhrase?_join {j : Placed} (r : Run) (hj : j.isTopKeyword "JOIN" = true) :
    Clause.joinPhrase? (j :: r) = some (.inner, r) := by
  simp [Clause.joinPhrase?, Run.startsWith_cons, hj]

/-- The words of a phrase are read as their kind. -/
theorem joinPhrase?_append {w : JoinWords} (r : Run) (h : w.Spelled) :
    Clause.joinPhrase? (w.run ++ r) = some (w.kind, r) := by
  cases w with
  | bare j => exact joinPhrase?_join r h
  | named kind word j =>
    rcases h with ⟨hword, hj⟩
    have hskip := skipOuter_of_join kind r hj
    simp only [run, List.cons_append, List.nil_append]
    rw [joinPhrase?_cons _ hword, hskip, Run.startsWith_cons, if_pos hj]
    rfl
  | withOuter kind word outer j =>
    rcases h with ⟨hkind, hword, houter, hj⟩
    have hskip : Clause.skipOuter kind (outer :: j :: r) = j :: r := by
      rw [Clause.skipOuter, if_neg hkind, Run.skipKeyword_cons houter]
    simp only [run, List.cons_append, List.nil_append]
    rw [joinPhrase?_cons _ hword, hskip, Run.startsWith_cons, if_pos hj]
    rfl

theorem opensNone_outer {p : Placed} (h : p.isTopKeyword "OUTER" = true) : p.OpensNone :=
  Placed.opensNone_of_isTopKeyword h fun c => by cases c <;> decide

/-- The first of the words opens a join. -/
theorem opens_append {w : JoinWords} (r : Run) (h : w.Spelled) :
    Clause.opens .join (w.run ++ r) = true := by
  simp [Clause.opens, joinPhrase?_append r h]

end JoinWords

/-- Where JOIN does not stand outside parentheses, no join phrase opens. -/
theorem Clause.free_join_of_forall (r : Run) (h : ∀ p ∈ r, p.isTopKeyword "JOIN" = false) :
    Run.Free (Clause.opens .join) r [] := by
  have hstart : ∀ {s : Run}, (∀ p ∈ s, p.isTopKeyword "JOIN" = false) →
      Run.startsWith "JOIN" s = false := by
    intro s hs
    cases s with
    | nil => rfl
    | cons p s => rw [Run.startsWith_cons, hs p (by simp)]
  have hnone : ∀ {s : Run}, (∀ p ∈ s, p.isTopKeyword "JOIN" = false) →
      Clause.joinPhrase? s = none := by
    intro s hs
    have houter : ∀ kind, Run.startsWith "JOIN" (Clause.skipOuter kind s.tail) = false :=
      fun kind => hstart fun p hp => hs p (List.mem_of_mem_tail (Clause.skipOuter_subset kind _ hp))
    rw [Clause.joinPhrase?, hstart hs]
    cases Clause.joinKind? s with
    | none => rfl
    | some kind => simp [houter]
  induction r with
  | nil => trivial
  | cons p r ih =>
    refine ⟨?_, ih fun q hq => h q (by simp [hq])⟩
    rw [List.append_nil, Clause.opens, hnone h]
    rfl

/-! ## Bodies -/

/-- What stands behind the words of a phrase. -/
inductive JoinBody where
  /-- No table. -/
  | bare
  /-- A table, and no ON. -/
  | table (path label : Run)
  /-- A table, and a USING list in the place of ON. -/
  | usingList (path label : Run) (word : Placed) (list : Run)
  /-- A table, ON and a condition, which may be missing. -/
  | onCondition (path label : Run) (word : Placed) (condition : Run)

namespace JoinBody

def run : JoinBody → Run
  | bare => []
  | table path label => path ++ label
  | usingList path label word list => path ++ (label ++ word :: list)
  | onCondition path label word condition => path ++ (label ++ word :: condition)

/-- Two parentheses and what they enclose. -/
def IsEnclosed (r : Run) : Prop :=
  ∃ l inner c, r = l :: (inner ++ [c]) ∧ l.isTop .leftParen = true ∧
    c.isTop .rightParen = true ∧ ∀ p ∈ inner, 0 < p.depth

/-- The body is written as its form says, in front of `rest`: no clause opens in its condition. -/
def Valid (rest : Run) : JoinBody → Prop
  | bare => True
  | table path label => Run.IsNamePath path ∧ Run.IsAlias label
  | usingList path label word list =>
    Run.IsNamePath path ∧ Run.IsAlias label ∧ word.isTopKeyword "USING" = true ∧ IsEnclosed list
  | onCondition path label word condition =>
    Run.IsNamePath path ∧ Run.IsAlias label ∧ word.isTopKeyword "ON" = true ∧
      Run.Free (Clause.opensAny Clause.all) condition rest

/-- The join of the kind that the body describes; none when it is not complete. -/
def join? (kind : JoinKind) : JoinBody → Option Join
  | onCondition path _ _ condition =>
    if condition.isEmpty then none
    else some ⟨kind, String.ofList (Run.text path), String.ofList (Run.text condition)⟩
  | _ => none

/-- No token of a run in parentheses opens a clause or a join. -/
theorem IsEnclosed.opensNone {r : Run} (h : IsEnclosed r) : ∀ p ∈ r, p.OpensNone := by
  rcases h with ⟨l, inner, c, rfl, hl, hc, hinner⟩
  simp only [Placed.isTop, Bool.and_eq_true, beq_iff_eq] at hl hc
  intro p hp
  simp only [List.mem_cons, List.mem_append, List.not_mem_nil, or_false] at hp
  rcases hp with rfl | hp | rfl
  · exact Placed.opensNone_of_kind_ne (by simp [hl.2])
  · exact Placed.opensNone_of_depth_pos (hinner p hp)
  · exact Placed.opensNone_of_kind_ne (by simp [hc.2])

/-- ON opens no clause and no join. -/
theorem opensNone_on {p : Placed} (h : p.isTopKeyword "ON" = true) : p.OpensNone :=
  Placed.opensNone_of_isTopKeyword h fun c => by cases c <;> decide

theorem opensNone_using {p : Placed} (h : p.isTopKeyword "USING" = true) : p.OpensNone :=
  Placed.opensNone_of_isTopKeyword h fun c => by cases c <;> decide

/-- No join phrase opens inside a body. -/
theorem free_join {b : JoinBody} {rest : Run} (h : b.Valid rest) :
    Run.Free (Clause.opens .join) b.run rest := by
  cases b with
  | bare => trivial
  | table path label =>
    rcases h with ⟨hpath, halias⟩
    refine Run.free_opens_of_opensNone rest fun p hp => ?_
    rcases List.mem_append.1 hp with hp | hp
    · exact hpath.opensNone p hp
    · exact halias.opensNone p hp
  | usingList path label word list =>
    rcases h with ⟨hpath, halias, hword, hlist⟩
    refine Run.free_opens_of_opensNone rest fun p hp => ?_
    simp only [run, List.mem_append, List.mem_cons] at hp
    rcases hp with hp | hp | rfl | hp
    · exact hpath.opensNone p hp
    · exact halias.opensNone p hp
    · exact opensNone_using hword
    · exact hlist.opensNone p hp
  | onCondition path label word condition =>
    rcases h with ⟨hpath, halias, hword, hcondition⟩
    have hfree : Run.Free (Clause.opens .join) condition rest :=
      hcondition.mono fun r hr => Clause.opensAny_iff.2 ⟨.join, by simp [Clause.all], hr⟩
    rw [run, ← List.append_assoc, Run.free_append]
    refine ⟨Run.free_opens_of_opensNone _ fun p hp => ?_, ?_, hfree⟩
    · rcases List.mem_append.1 hp with hp | hp
      · exact hpath.opensNone p hp
      · exact halias.opensNone p hp
    · have := Run.free_opens_of_opensNone (c := .join) (a := [word]) (condition ++ rest)
        (by simpa using opensNone_on hword)
      exact this.1

end JoinBody

/-! ## Reading a phrase -/

namespace Join

/-- Lexemes among which no join phrase opens are passed over. -/
theorem ofRun_append_of_free {a b : Run} (h : Run.Free (Clause.opens .join) a b) :
    ofRun (a ++ b) = ofRun b := by
  induction a with
  | nil => rfl
  | cons p a ih =>
    have hp : Clause.joinPhrase? (p :: (a ++ b)) = none := by
      simpa [Clause.opens] using h.1
    rw [List.cons_append, ofRun_eq_of_none hp, ih h.2]

/-- A token that opens no join is passed over. -/
theorem ofRun_of_opensNone {p : Placed} (r : Run) (h : p.OpensNone) : ofRun (p :: r) = ofRun r :=
  ofRun_append_of_free (a := [p]) (Run.free_opens_of_opensNone r (by simpa using h))

/-- Behind the words of a join its body is read, and then the other joins. -/
theorem ofRun_words {w : JoinWords} (r : Run) (h : w.Spelled) :
    ofRun (w.run ++ r) = (readBody w.kind r).1.toList ++ ofRun (readBody w.kind r).2 := by
  have hread := JoinWords.joinPhrase?_append r h
  cases w with
  | bare | named | withOuter => exact ofRun_eq_of_some hread

/-- One name in the place of an alias is passed over. -/
theorem skipAlias_cons {p : Placed} {r : Run} (hname : p.token.isName = true)
    (has : p.isTopKeyword "AS" = false) (hon : p.isTopKeyword "ON" = false) :
    skipAlias (p :: r) = r := by
  have hskip : Run.skipKeyword "AS" (p :: r) = p :: r :=
    Run.skipKeyword_of_false (by rw [Run.startsWith_cons, has])
  simp [skipAlias, hskip, hname, hon]

/-- An alias is passed over. -/
theorem skipAlias_of_isAlias {label : Run} (r : Run) (h : Run.IsAlias label) (hne : label ≠ []) :
    skipAlias (label ++ r) = r := by
  cases h with
  | none => exact absurd rfl hne
  | name hn =>
    exact skipAlias_cons hn.1 (Placed.isTopKeyword_of_isFreeName hn (by simp))
      (Placed.isTopKeyword_of_isFreeName hn (by decide))
  | @asName a n ha hn =>
    have hon := Placed.isTopKeyword_of_isFreeName hn (show "ON" ∈ _ by decide)
    simp [skipAlias, Run.skipKeyword_cons ha, hn.1, hon]

/-- Passing over an alias adds no token. -/
theorem skipAlias_subset (r : Run) : skipAlias r ⊆ r := by
  have h := Run.skipKeyword_subset "AS" r
  unfold skipAlias
  split
  · simp
  · rename_i p ps hs
    rw [hs] at h
    split
    · exact fun q hq => h (List.mem_cons_of_mem p hq)
    · exact h

/-- ON is no alias. -/
theorem skipAlias_on {p : Placed} {r : Run} (h : p.isTopKeyword "ON" = true) :
    skipAlias (p :: r) = p :: r := by
  have has : p.isTopKeyword "AS" = false := Placed.isTopKeyword_of_ne h (by decide)
  have hskip : Run.skipKeyword "AS" (p :: r) = p :: r :=
    Run.skipKeyword_of_false (by rw [Run.startsWith_cons, has])
  simp [skipAlias, hskip, h]

/-- A path that no ON follows, behind an optional alias, is no join. -/
theorem readBody_of_path (kind : JoinKind) {path r : Run} (h : Run.IsNamePath path)
    (hr : Run.NoDot r) (hon : Run.startsWith "ON" (skipAlias r) = false) :
    readBody kind (path ++ r) = (none, skipAlias r) := by
  simp [readBody, h.namePath?_append hr, hon]

/-- Two names that no ON follows are taken for a table and its alias, also when they are
keywords. -/
theorem readBody_of_names {kind : JoinKind} {p n : Placed} {r : Run} (hp : p.token.isName = true)
    (hn : n.token.isName = true) (has : n.isTopKeyword "AS" = false)
    (hon : n.isTopKeyword "ON" = false) (hr : Run.startsWith "ON" r = false) :
    readBody kind (p :: n :: r) = (none, r) := by
  have hpath := Run.namePath?_cons hp (Run.noDot_of_isName (r := r) hn)
  simp [readBody, hpath, skipAlias_cons hn has hon, hr]

/-- A complete body is read whole, and nothing behind it. -/
theorem readBody_onCondition (kind : JoinKind) {path label condition rest : Run} {word : Placed}
    (h : (JoinBody.onCondition path label word condition).Valid rest)
    (hrest : Run.StopsBy (Clause.opensAny Clause.all) rest) :
    readBody kind ((JoinBody.onCondition path label word condition).run ++ rest) =
      ((JoinBody.onCondition path label word condition).join? kind, rest) := by
  rcases h with ⟨hpath, halias, hword, hcondition⟩
  have hdot : Run.NoDot (word :: (condition ++ rest)) :=
    Run.noDot_of_isName (Token.isName_of_isKeyword (Placed.isTopKeyword_iff.1 hword).2)
  have hskip : skipAlias (label ++ word :: (condition ++ rest)) = word :: (condition ++ rest) := by
    by_cases hne : label = []
    · rw [hne]
      exact skipAlias_on hword
    · exact skipAlias_of_isAlias _ halias hne
  have hbreak := Run.breakAt_append_eq hcondition hrest
  simp only [JoinBody.run, List.append_assoc, List.cons_append]
  simp only [readBody, hpath.namePath?_append (halias.noDot_append hdot), hskip,
    Run.startsWith_cons, hword, if_true, List.tail_cons, Clause.enders, hbreak, JoinBody.join?]
  split <;> rfl

end Join

end SelectAlgebra
