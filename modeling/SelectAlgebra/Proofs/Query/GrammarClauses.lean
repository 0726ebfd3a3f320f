import SelectAlgebra.Proofs.Query.GrammarItems
import SelectAlgebra.Proofs.Query.JoinSequence
import SelectAlgebra.Proofs.Statement.Sections

/-!
# The clauses of a written statement

The join clauses of a written statement are complete join phrases, and its other clauses are
sections that hold no word with which a clause opens.  So every scan over the clauses finds what
was written.

Main results:

- Theorem `ofRun_joins`: the joins that are read are those that were written.
- Theorem `Statement.run_sectionLexemes`: the clauses behind the joins are sections.
- Theorems `Statement.valid_sections` and `Statement.ordered_sections`: the sections are valid and
  stand in their order.
-/

namespace SelectAlgebra.Written

open Lexeme

/-! ## Joins -/

/-- The placed words of a join clause. -/
def JoinSpelling.words : JoinSpelling → JoinWords
  | bare space join => .bare (top ⟨space.1, join.token⟩)
  | named kind space word space' join =>
    .named kind (top ⟨space.1, word.token⟩) (top ⟨space'.1, join.token⟩)
  | withOuter kind _ space word space' outer space'' join =>
    .withOuter kind (top ⟨space.1, word.token⟩) (top ⟨space'.1, outer.token⟩)
      (top ⟨space''.1, join.token⟩)

namespace JoinSpelling

/-- The run of the words of a join is that of the words that are read. -/
theorem run_eq (s : JoinSpelling) : run s.lexemes = s.words.run := by
  have hparen : ∀ l ∈ s.lexemes, ¬ l.IsParen := by
    cases s <;> simp [lexemes, IsParen, Keyword.token]
  rw [run_of_no_paren hparen]
  cases s <;> rfl

/-- The words of a join are read as its kind. -/
theorem kind_words (s : JoinSpelling) : s.words.kind = s.kind := by
  cases s <;> rfl

/-- The words of a join are spelled as they are read. -/
theorem spelled (s : JoinSpelling) : s.words.Spelled := by
  cases s with
  | bare space join => exact join.isTopKeyword space.1
  | named kind space word space' join =>
    exact ⟨word.isTopKeyword space.1, join.isTopKeyword space'.1⟩
  | withOuter kind outer space word space' outerWord space'' join =>
    exact ⟨outer, word.isTopKeyword space.1, outerWord.isTopKeyword space'.1,
      join.isTopKeyword space''.1⟩

end JoinSpelling

/-- The placed lexemes of a join clause. -/
def JoinClause.phrase (j : JoinClause) : JoinPhrase where
  words := j.spelling.words
  body := .onCondition (run (j.source.path.lexemes j.space.1)) (run j.source.label.lexemes)
    (top ⟨j.onSpace.1, j.onWord.token⟩) (run (j.condition.lexemes j.conditionSpace.1))

namespace JoinClause

variable (j : JoinClause)

/-- A join clause is a complete join phrase. -/
theorem run_eq : run j.lexemes = j.phrase.run := by
  have hsource : Balanced (j.source.lexemes j.space.1) := (j.source.piece j.space).balanced
  rw [lexemes, run_append j.spelling.piece.balanced, run_append hsource,
    run_cons (j.onWord.not_isParen _), j.spelling.run_eq, Source.run_eq, List.append_assoc]
  rfl

/-- The phrase of a join is read as the join. -/
theorem join?_phrase : j.phrase.join? = some j.join := by
  have hne : (run (j.condition.lexemes j.conditionSpace.1)).isEmpty = false := by
    simpa [Space.blank] using j.condition.ne_nil_run j.conditionSpace.blank
  have hpath := j.source.path.text_run j.space.1
  have hcondition := j.condition.text_run j.conditionSpace.blank
  rw [Space.blank] at hcondition
  simp only [JoinPhrase.join?, phrase, JoinBody.join?, hne, hpath, hcondition,
    JoinSpelling.kind_words, join, Bool.false_eq_true, if_false]

/-- No token of a condition opens a clause or a join. -/
theorem opensNone_condition : ∀ p ∈ run (j.condition.lexemes j.conditionSpace.1), p.OpensNone :=
  j.condition.opensNone j.conditionSpace.blank

/-- The phrase of a join is one that is read whatever follows it. -/
theorem valid (rest : Run) : j.phrase.words.Spelled ∧ j.phrase.body.Valid rest :=
  ⟨j.spelling.spelled, j.source.path.isNamePath j.space.1, j.source.label.isAlias,
    j.onWord.isTopKeyword _, Run.free_opensAny_of_opensNone rest j.opensNone_condition⟩

/-- No word with which a clause other than a join opens stands in a join clause. -/
theorem absentFrom {c : Clause} (hc : c ≠ .join) : c.AbsentFrom j.phrase.run := by
  have hword : ∀ {p : Placed} {word : String}, p.isTopKeyword word = true →
      word ∈ ["JOIN", "INNER", "LEFT", "RIGHT", "FULL", "OUTER", "ON"] →
      ∀ o ∈ c.openers, p.isTopKeyword o = false := by
    intro p word hp hword o ho
    apply Placed.isTopKeyword_of_ne hp
    have hall : ∀ d : Clause, d ≠ .join →
        ∀ w ∈ ["JOIN", "INNER", "LEFT", "RIGHT", "FULL", "OUTER", "ON"], ∀ o ∈ d.openers,
          Text.lower w.toList ≠ Text.lower o.toList := by
      intro d
      cases d <;> decide
    exact hall c hc word hword o ho
  have hwords : c.AbsentFrom j.phrase.words.run := by
    intro p hp
    have hspelled := j.spelling.spelled
    rw [phrase] at hp
    cases hw : j.spelling.words with
    | bare join =>
      rw [hw] at hp hspelled
      obtain rfl : p = join := by simpa [JoinWords.run] using hp
      exact hword hspelled (by simp)
    | named kind word join =>
      rw [hw] at hp hspelled
      simp only [JoinWords.run, List.mem_cons, List.not_mem_nil, or_false] at hp
      rcases hp with rfl | rfl
      · exact hword hspelled.1 (by cases kind <;> simp [JoinKind.keyword])
      · exact hword hspelled.2 (by simp)
    | withOuter kind word outer join =>
      rw [hw] at hp hspelled
      simp only [JoinWords.run, List.mem_cons, List.not_mem_nil, or_false] at hp
      rcases hp with rfl | rfl | rfl
      · exact hword hspelled.2.1 (by cases kind <;> simp [JoinKind.keyword])
      · exact hword hspelled.2.2.1 (by simp)
      · exact hword hspelled.2.2.2 (by simp)
  have hon : c.AbsentFrom [top ⟨j.onSpace.1, j.onWord.token⟩] := by
    intro p hp
    obtain rfl : p = top ⟨j.onSpace.1, j.onWord.token⟩ := by simpa using hp
    exact hword (j.onWord.isTopKeyword _) (by simp)
  apply hwords.append
  apply (Clause.absentFrom_of_opensNone c (j.source.path.isNamePath j.space.1).opensNone).append
  apply (Clause.absentFrom_of_opensNone c j.source.label.isAlias.opensNone).append
  exact hon.append (Clause.absentFrom_of_opensNone c j.opensNone_condition)

end JoinClause

/-- The placed join clauses of a list. -/
def phrases (js : List JoinClause) : List JoinPhrase :=
  js.map JoinClause.phrase

/-- Joins close all their parentheses. -/
theorem balanced_joins (js : List JoinClause) : Balanced (js.flatMap JoinClause.lexemes) :=
  (Piece.flatMap JoinClause.piece).balanced

/-- The run of joins is that of their phrases. -/
theorem run_joins (js : List JoinClause) :
    run (js.flatMap JoinClause.lexemes) = JoinPhrase.runAll (phrases js) := by
  induction js with
  | nil => rfl
  | cons j js ih =>
    rw [List.flatMap_cons, run_append j.piece.balanced, j.run_eq, ih]
    rfl

/-- The phrases of joins are read one by one whatever follows them. -/
theorem validAll_phrases (js : List JoinClause) (tail : Run) :
    JoinPhrase.ValidAll tail (phrases js) := by
  induction js with
  | nil => trivial
  | cons j js ih => exact ⟨j.valid _, ih⟩

/-- No other clause opens in the joins. -/
theorem absentFrom_joins {c : Clause} (js : List JoinClause) (hc : c ≠ .join) :
    c.AbsentFrom (JoinPhrase.runAll (phrases js)) := by
  intro p hp
  rcases List.mem_flatMap.1 hp with ⟨f, hf, hp⟩
  rcases List.mem_map.1 hf with ⟨j, -, rfl⟩
  exact j.absentFrom hc p hp

/-- The joins that are read are those that were written. -/
theorem ofRun_joins {js : List JoinClause} {tail : Run} (h : JoinPhrase.EndsJoins tail) :
    Join.ofRun (JoinPhrase.runAll (phrases js) ++ tail) = js.map JoinClause.join := by
  have hvalid := validAll_phrases js tail
  have hresume := Pending.resume_runAll .nothing hvalid h
  have hintact : Pending.Intact .nothing (phrases js) := by
    apply Pending.intact_of_forall
    intro f hf
    rcases List.mem_map.1 hf with ⟨j, -, rfl⟩
    simp [j.join?_phrase]
  have hscan := (Pending.scan_eq_iff .nothing hvalid).2 hintact
  have hjoins : (phrases js).filterMap JoinPhrase.join? = js.map JoinClause.join := by
    have hcomp : JoinPhrase.join? ∘ JoinClause.phrase = some ∘ JoinClause.join := by
      funext j
      exact j.join?_phrase
    rw [phrases, List.filterMap_map, hcomp, List.filterMap_eq_map]
  rw [← hjoins, ← hscan, ← hresume]
  rfl

/-! ## Sections -/

/-- The placed lexemes of a clause that holds a predicate. -/
def PredicateClause.toSection {word : String} (clause : Clause) (c : PredicateClause word) :
    Section where
  clause := clause
  words := [top ⟨c.space.1, c.opener.token⟩]
  content := run (c.predicate.lexemes c.predicateSpace.1)

/-- The placed lexemes of a clause that holds a list. -/
def ListClause.toSection {word : String} {α : Type} (clause : Clause)
    (f : List Char → α → List Lexeme) (c : ListClause word α) : Section where
  clause := clause
  words := [top ⟨c.space.1, c.opener.token⟩, top ⟨c.bySpace.1, c.byWord.token⟩]
  content := run (c.list.lexemes f)

/-- The run of a clause with a predicate is that of its section. -/
theorem PredicateClause.run_eq {word : String} (clause : Clause) (c : PredicateClause word) :
    run c.lexemes = (c.toSection clause).run := by
  rw [lexemes, run_cons (c.opener.not_isParen _)]
  rfl

/-- The run of a clause with a list is that of its section. -/
theorem ListClause.run_eq {word : String} {α : Type} (clause : Clause)
    (f : List Char → α → List Lexeme) (c : ListClause word α) :
    run (c.lexemes f) = (c.toSection clause f).run := by
  rw [lexemes, run_cons (c.opener.not_isParen _), run_cons (c.byWord.not_isParen _)]
  rfl

/-- A lexeme of a list stands in one of its items or is a comma. -/
theorem CommaList.mem_run {α : Type} {f : List Char → α → List Lexeme}
    (hbalanced : ∀ (gap : Blank) x, Balanced (f gap.1 x)) {l : CommaList α} {p : Placed}
    (hp : p ∈ run (l.lexemes f)) :
    (∃ (gap : Blank) (x : α), p ∈ run (f gap.1 x)) ∨ p.token.kind = .comma := by
  have hgeneral : ∀ (tail : List (Blank × Blank × α)),
      p ∈ run (tail.flatMap fun y => comma y.1 :: f y.2.1.1 y.2.2) →
        (∃ (gap : Blank) (x : α), p ∈ run (f gap.1 x)) ∨ p.token.kind = .comma := by
    intro tail
    induction tail with
    | nil =>
      intro hp
      cases hp
    | cons y tail ih =>
      intro hp
      rw [List.flatMap_cons, List.cons_append, run_cons (comma_not_paren y.1),
        run_append (hbalanced y.2.1 y.2.2)] at hp
      rcases List.mem_cons.1 hp with rfl | hp
      · exact Or.inr rfl
      · rcases List.mem_append.1 hp with hp | hp
        · exact Or.inl ⟨y.2.1, y.2.2, hp⟩
        · exact ih hp
  have hhead : Balanced (f l.space.1 l.head) := hbalanced l.space.blank l.head
  rw [lexemes, run_append hhead] at hp
  rcases List.mem_append.1 hp with hp | hp
  · exact Or.inl ⟨l.space.blank, l.head, hp⟩
  · exact hgeneral l.tail hp

/-- What a section holds: no word with which a clause opens, and no ON. -/
def Quiet (p : Placed) : Prop :=
  p.OpensNone ∧ p.isTopKeyword "ON" = false

/-- Every token of a fragment is quiet. -/
theorem Fragment.quiet (f : Fragment) (gap : Blank) : ∀ p ∈ run (f.lexemes gap.1), Quiet p :=
  fun p hp => ⟨f.opensNone gap p hp, f.no_keyword_run gap hp (by decide)⟩

/-- A token that is no word is quiet. -/
theorem quiet_of_kind {p : Placed} (h : p.token.kind ≠ .word) : Quiet p :=
  ⟨Placed.opensNone_of_kind_ne h, Placed.isTopKeyword_of_kind_ne "ON" h⟩

/-- Every token of a sort key is quiet. -/
theorem SortEntry.quiet (e : SortEntry) (gap : Blank) : ∀ p ∈ run (e.lexemes gap.1), Quiet p := by
  intro p hp
  rcases e.mem_run gap hp with ⟨f, gap', hp⟩ | ⟨space, direction, word, rfl⟩
  · exact f.quiet gap' p hp
  · have hword := word.isTopKeyword space.1
    constructor
    · apply Placed.opensNone_of_isTopKeyword hword
      intro c
      cases direction <;> cases c <;> decide
    · apply Placed.isTopKeyword_of_ne hword
      cases direction <;> decide

/-- Every token of a list is quiet when those of its entries are. -/
theorem CommaList.quiet {α : Type} {f : List Char → α → List Lexeme}
    (hbalanced : ∀ (gap : Blank) x, Balanced (f gap.1 x))
    (hquiet : ∀ (gap : Blank) x, ∀ p ∈ run (f gap.1 x), Quiet p) (l : CommaList α) :
    ∀ p ∈ run (l.lexemes f), Quiet p := by
  intro p hp
  rcases mem_run hbalanced hp with ⟨gap, x, hp⟩ | hkind
  · exact hquiet gap x p hp
  · exact quiet_of_kind (by simp [hkind])

/-- A clause that is opened by one keyword is a valid section. -/
theorem PredicateClause.valid {word : String} {clause : Clause} (c : PredicateClause word)
    (hopens : ∀ p r, p.isTopKeyword word = true → clause.opens (p :: r) = true)
    (hlength : clause.phraseLength = 1)
    (hforeign : ∀ d : Clause, d ≠ clause → ∀ o ∈ d.openers,
      Text.lower word.toList ≠ Text.lower o.toList) : (c.toSection clause).Valid where
  opens r := hopens _ _ (c.opener.isTopKeyword c.space.1)
  length := hlength.symm
  foreign := by
    intro d hd p hp o ho
    obtain rfl : p = top ⟨c.space.1, c.opener.token⟩ := by simpa [toSection] using hp
    exact Placed.isTopKeyword_of_ne (c.opener.isTopKeyword c.space.1) (hforeign d hd o ho)
  content p hp := (c.predicate.quiet c.predicateSpace.blank p hp).1

/-- A clause that is opened by a keyword and BY is a valid section. -/
theorem ListClause.valid {word : String} {α : Type} {clause : Clause}
    {f : List Char → α → List Lexeme} (c : ListClause word α)
    (hopens : ∀ r, clause.opens r = Clause.startsWithPair word "BY" r)
    (hlength : clause.phraseLength = 2)
    (hforeign : ∀ d : Clause, d ≠ clause → ∀ o ∈ d.openers,
      Text.lower word.toList ≠ Text.lower o.toList ∧
        Text.lower "BY".toList ≠ Text.lower o.toList)
    (hquiet : ∀ p ∈ run (c.list.lexemes f), Quiet p) : (c.toSection clause f).Valid where
  opens r := by
    have hword := c.opener.isTopKeyword c.space.1
    have hby := c.byWord.isTopKeyword c.bySpace.1
    have hpair := hopens ((c.toSection clause f).words ++ r)
    rw [toSection] at hpair ⊢
    rw [hpair]
    simp [Clause.startsWithPair, Run.startsWith_cons, hword, hby]
  length := hlength.symm
  foreign := by
    intro d hd p hp o ho
    have hne := hforeign d hd o ho
    simp only [toSection, List.mem_cons, List.not_mem_nil, or_false] at hp
    rcases hp with rfl | rfl
    · exact Placed.isTopKeyword_of_ne (c.opener.isTopKeyword c.space.1) hne.1
    · exact Placed.isTopKeyword_of_ne (c.byWord.isTopKeyword c.bySpace.1) hne.2
  content p hp := (hquiet p hp).1

/-! ## The clauses of a statement -/

namespace Statement

variable (w : Statement)

/-- The clauses behind the joins, each as a section. -/
def sections : List Section :=
  w.condition.toList.map (PredicateClause.toSection .condition) ++
    (w.grouping.toList.map (ListClause.toSection .grouping fun gap (e : Entry) => e.lexemes gap) ++
      (w.having.toList.map (PredicateClause.toSection .having) ++
        w.ordering.toList.map (ListClause.toSection .ordering SortEntry.lexemes)))

/-- The run of a clause that may be left out is that of its section, if there is one. -/
theorem run_optional {α : Type} {f : α → List Lexeme} {g : α → Section} (x : Option α)
    (h : ∀ y, run (f y) = (g y).run) : run (optional f x) = Section.runAll (x.toList.map g) := by
  cases x with
  | none => rfl
  | some y =>
    have hone : optional f (some y) = f y := List.append_nil _
    rw [hone, h]
    exact (List.append_nil _).symm

/-- A GROUP BY clause is a piece. -/
theorem piece_grouping (c : ListClause "GROUP" Entry) :
    Piece (c.lexemes fun gap (e : Entry) => e.lexemes gap) :=
  c.piece (by decide) (fun gap e => e.part gap) fun space e => e.piece space

/-- The clauses behind the joins are sections. -/
theorem run_sectionLexemes : run w.sectionLexemes = Section.runAll w.sections := by
  have hcondition : Balanced (optional PredicateClause.lexemes w.condition) :=
    (Piece.optional fun c => c.piece (by decide)).balanced
  have hgrouping : Balanced
      (optional (ListClause.lexemes fun gap (e : Entry) => e.lexemes gap) w.grouping) :=
    (Piece.optional piece_grouping).balanced
  have hhaving : Balanced (optional PredicateClause.lexemes w.having) :=
    (Piece.optional fun c => c.piece (by decide)).balanced
  rw [sectionLexemes, run_append hcondition, run_append hgrouping, run_append hhaving,
    run_optional _ (PredicateClause.run_eq .condition),
    run_optional _ (ListClause.run_eq .grouping _),
    run_optional _ (PredicateClause.run_eq .having), run_optional _ (ListClause.run_eq .ordering _)]
  simp only [sections, Section.runAll, List.flatMap_append]

/-- Every token of a GROUP BY list is quiet. -/
theorem quiet_grouping (c : ListClause "GROUP" Entry) :
    ∀ p ∈ run (c.list.lexemes fun gap (e : Entry) => e.lexemes gap), Quiet p :=
  CommaList.quiet (fun gap e => e.balanced_lexemes gap) (fun gap e => e.quiet gap) c.list

/-- Every token of an ORDER BY list is quiet. -/
theorem quiet_ordering (c : ListClause "ORDER" SortEntry) :
    ∀ p ∈ run (c.list.lexemes SortEntry.lexemes), Quiet p :=
  CommaList.quiet (fun gap e => (e.part gap).balanced) (fun gap e => e.quiet gap) c.list

/-- The sections of a statement are its WHERE, GROUP BY, HAVING and ORDER BY clauses. -/
theorem mem_sections {s : Section} (h : s ∈ w.sections) :
    (∃ c : PredicateClause "WHERE", s = c.toSection .condition) ∨
      (∃ c : ListClause "GROUP" Entry,
          s = c.toSection .grouping fun gap (e : Entry) => e.lexemes gap) ∨
      (∃ c : PredicateClause "HAVING", s = c.toSection .having) ∨
      ∃ c : ListClause "ORDER" SortEntry, s = c.toSection .ordering SortEntry.lexemes := by
  simp only [sections, List.mem_append, List.mem_map] at h
  rcases h with ⟨c, -, rfl⟩ | ⟨c, -, rfl⟩ | ⟨c, -, rfl⟩ | ⟨c, -, rfl⟩
  · exact Or.inl ⟨c, rfl⟩
  · exact Or.inr (Or.inl ⟨c, rfl⟩)
  · exact Or.inr (Or.inr (Or.inl ⟨c, rfl⟩))
  · exact Or.inr (Or.inr (Or.inr ⟨c, rfl⟩))

/-- Each section of a statement is read as it was written. -/
theorem valid_sections : ∀ s ∈ w.sections, s.Valid := by
  intro s hs
  rcases w.mem_sections hs with ⟨c, rfl⟩ | ⟨c, rfl⟩ | ⟨c, rfl⟩ | ⟨c, rfl⟩
  · apply c.valid (fun p r hp => by rwa [Clause.opens, Run.startsWith_cons]) rfl
    intro d
    cases d <;> decide
  · apply c.valid (fun _ => rfl) rfl _ (quiet_grouping c)
    intro d
    cases d <;> decide
  · apply c.valid (fun p r hp => by rwa [Clause.opens, Run.startsWith_cons]) rfl
    intro d
    cases d <;> decide
  · apply c.valid (fun _ => rfl) rfl _ (quiet_ordering c)
    intro d
    cases d <;> decide

/-- The sections of a statement stand in their usual order. -/
theorem ordered_sections : Section.Ordered w.sections := by
  unfold Section.Ordered sections
  cases w.condition <;> cases w.grouping <;> cases w.having <;> cases w.ordering <;>
    simp [PredicateClause.toSection, ListClause.toSection, Clause.enders]

/-- Neither JOIN nor ON stands outside parentheses behind the joins. -/
theorem endsJoins_sections : JoinPhrase.EndsJoins (Section.runAll w.sections) := by
  refine ⟨Section.stopsBy_runAll w.valid_sections fun s _ => ?_, ?_⟩
  · cases s.clause <;> decide
  · have hquiet : ∀ {p : Placed}, Quiet p →
        p.isTopKeyword "JOIN" = false ∧ p.isTopKeyword "ON" = false :=
      fun h => ⟨h.1 .join "JOIN" (by decide), h.2⟩
    have hword : ∀ {p : Placed} {word : String}, p.isTopKeyword word = true →
        word ∈ ["WHERE", "GROUP", "BY", "HAVING", "ORDER"] →
        p.isTopKeyword "JOIN" = false ∧ p.isTopKeyword "ON" = false := by
      intro p word hp hword
      have hall : ∀ w ∈ ["WHERE", "GROUP", "BY", "HAVING", "ORDER"],
          Text.lower w.toList ≠ Text.lower "JOIN".toList ∧
            Text.lower w.toList ≠ Text.lower "ON".toList := by
        decide
      have hne := hall word hword
      exact ⟨Placed.isTopKeyword_of_ne hp hne.1, Placed.isTopKeyword_of_ne hp hne.2⟩
    intro p hp
    rcases List.mem_flatMap.1 hp with ⟨s, hs, hp⟩
    rw [Section.run, List.mem_append] at hp
    rcases w.mem_sections hs with ⟨c, rfl⟩ | ⟨c, rfl⟩ | ⟨c, rfl⟩ | ⟨c, rfl⟩
    · rcases hp with hp | hp
      · obtain rfl := List.mem_singleton.1 hp
        exact hword (c.opener.isTopKeyword _) (by simp)
      · exact hquiet (c.predicate.quiet c.predicateSpace.blank p hp)
    · rcases hp with hp | hp
      · simp only [ListClause.toSection, List.mem_cons, List.not_mem_nil, or_false] at hp
        rcases hp with rfl | rfl
        · exact hword (c.opener.isTopKeyword _) (by simp)
        · exact hword (c.byWord.isTopKeyword _) (by simp)
      · exact hquiet (quiet_grouping c p hp)
    · rcases hp with hp | hp
      · obtain rfl := List.mem_singleton.1 hp
        exact hword (c.opener.isTopKeyword _) (by simp)
      · exact hquiet (c.predicate.quiet c.predicateSpace.blank p hp)
    · rcases hp with hp | hp
      · simp only [ListClause.toSection, List.mem_cons, List.not_mem_nil, or_false] at hp
        rcases hp with rfl | rfl
        · exact hword (c.opener.isTopKeyword _) (by simp)
        · exact hword (c.byWord.isTopKeyword _) (by simp)
      · exact hquiet (quiet_ordering c p hp)

end Statement

end SelectAlgebra.Written
