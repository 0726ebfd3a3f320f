import SelectAlgebra.Proofs.Query.Entries
import SelectAlgebra.Proofs.Query.GrammarText

/-!
# The items of a written statement

Each item of a written list is read as what it spells: a select item as its column without alias
and qualifiers, an item of the FROM list as the path of its table, an item of GROUP BY as its
text and an item of ORDER BY as its column and its direction.

Main results:

- Theorem `Source.column_run`: the column of a select item is the last name of its path.
- Theorem `Source.tableName?_run`: the table of an item of the FROM list is its path.
- Theorem `SortEntry.ofItem?_run`: the key of an item of ORDER BY.
- Theorem `CommaList.segments_run`: the items of a list are those that were written.
-/

namespace SelectAlgebra.Written

open Lexeme

/-- The lexemes placed outside all parentheses. -/
def run (ls : List Lexeme) : Run :=
  Run.place 0 ls

/-- A lexeme outside all parentheses. -/
def top (l : Lexeme) : Placed :=
  ⟨l, 0⟩

/-- Without parentheses all lexemes stand outside them. -/
theorem run_of_no_paren {ls : List Lexeme} (h : ∀ l ∈ ls, ¬ l.IsParen) : run ls = ls.map top :=
  Run.place_of_no_paren h

/-- What follows lexemes that close all their parentheses is placed by itself. -/
theorem run_append {ls ms : List Lexeme} (h : Balanced ls) : run (ls ++ ms) = run ls ++ run ms :=
  Run.place_append h

/-- What follows a lexeme that is no parenthesis is placed by itself. -/
theorem run_cons {l : Lexeme} {ls : List Lexeme} (h : ¬ l.IsParen) :
    run (l :: ls) = top l :: run ls :=
  Run.place_other h

/-- Placing lexemes does not change them. -/
theorem toLexeme_run (ls : List Lexeme) : (run ls).map Placed.toLexeme = ls :=
  Run.map_toLexeme_place 0 ls

/-- The text of placed lexemes is their source without the first gap. -/
theorem text_run (l : Lexeme) (ls : List Lexeme) :
    Run.text (run (l :: ls)) = l.token.text ++ sourceAll ls := by
  have hmap := toLexeme_run (l :: ls)
  cases hrun : run (l :: ls) with
  | nil =>
    rw [hrun] at hmap
    cases hmap
  | cons p ps =>
    rw [hrun, List.map_cons] at hmap
    rcases List.cons.inj hmap with ⟨rfl, rfl⟩
    rw [Run.text, sourceAll, List.flatMap_map]

/-! ## Names -/

/-- A name is neither AS nor a keyword. -/
theorem Name.isFreeName (n : Name) : n.token.IsFreeName := by
  refine ⟨n.kind, ?_⟩
  intro word hword
  cases n with
  | bare c cs digit chars free =>
    apply free word
    have hall : ∀ w ∈ "AS" :: Token.keywords, w ∈ Token.keywords ++ SelectItem.reservedWords := by
      decide
    exact hall word hword
  | quoted quote inside mark =>
    have hall : ∀ w ∈ "AS" :: Token.keywords, (Text.lower w.toList).head? ≠ some '\x22' ∧
        (Text.lower w.toList).head? ≠ some '\x60' := by
      decide
    have hword := hall word hword
    cases hsame : Text.sameLetters (Name.quoted quote inside mark).token.text word.toList with
    | false => rfl
    | true =>
      have hhead := congrArg List.head? (Text.sameLetters_iff.1 hsame)
      rw [← hhead] at hword
      rcases mark with rfl | rfl
      · exact absurd rfl hword.1
      · exact absurd rfl hword.2

/-- A name is no reserved word. -/
theorem Name.isReserved (n : Name) : SelectItem.isReserved n.token = false := by
  rw [SelectItem.isReserved, List.any_eq_false]
  intro word hword
  cases n with
  | bare c cs digit chars free =>
    have := free word (List.mem_append_right _ hword)
    simp [Token.isKeyword, Name.token, this]
  | quoted quote inside mark => simp [Token.isKeyword, Name.token]

/-- A name ends an operand. -/
theorem Name.endsOperand (n : Name) : SelectItem.endsOperand n.token = true := by
  cases n with
  | bare c cs digit chars free =>
    have := Name.isReserved (.bare c cs digit chars free)
    rw [Name.token] at this
    simp [SelectItem.endsOperand, Name.token, this]
  | quoted quote inside mark => rfl

/-! ## Paths -/

namespace Path

variable (p : Path) (gap : List Char)

/-- All of a path stands outside parentheses. -/
theorem run_eq : run (p.lexemes gap) = (p.lexemes gap).map top :=
  run_of_no_paren fun l hl => (p.kinds gap l hl).1

/-- The text of the run of a path is the path as it is written. -/
theorem text_run : Run.text (run (p.lexemes gap)) = p.text :=
  Written.text_run _ _

/-- A path is read as a path of names. -/
theorem isNamePath : Run.IsNamePath (run (p.lexemes gap)) := by
  rw [run_eq]
  rcases p with ⟨first, steps⟩
  induction steps generalizing first gap with
  | nil => exact .name first.isFreeName
  | cons s steps ih => exact .step first.isFreeName rfl (ih s.after.1 s.name)

/-- A path is one name, or something with a dot and a name behind it. -/
theorem last_shape : run (p.lexemes gap) = [top ⟨gap, p.last.token⟩] ∨
    ∃ init d g, run (p.lexemes gap) = init ++ [d, top ⟨g, p.last.token⟩] ∧
      d.token.kind = .dot := by
  rw [run_eq]
  rcases List.eq_nil_or_concat p.steps with hnil | ⟨init, s, hlast⟩
  · left
    simp [lexemes, last, hnil]
  · right
    rw [List.concat_eq_append] at hlast
    refine ⟨(⟨gap, p.first.token⟩ :: init.flatMap Step.lexemes).map top,
      top ⟨s.before.1, ⟨.dot, ['.']⟩⟩, s.after.1, ?_, rfl⟩
    simp [lexemes, last, hlast, Step.lexemes]

/-- No word of a path is AS. -/
theorem no_as : ∀ q ∈ run (p.lexemes gap), q.isTopKeyword "AS" = false := by
  rw [run_eq]
  intro q hq
  rcases List.mem_map.1 hq with ⟨l, hl, rfl⟩
  rcases List.mem_cons.1 hl with rfl | hl
  · exact Placed.isTopKeyword_of_isFreeName p.first.isFreeName (by simp)
  · rcases List.mem_flatMap.1 hl with ⟨s, -, hl⟩
    rw [Step.lexemes, List.mem_cons, List.mem_singleton] at hl
    rcases hl with rfl | rfl
    · rfl
    · exact Placed.isTopKeyword_of_isFreeName s.name.isFreeName (by simp)

/-- Without its qualifiers, a path is its last name. -/
theorem unqualify_run :
    SelectItem.unqualify (run (p.lexemes gap)) = [top ⟨gap, p.last.token⟩] := by
  rw [run_eq]
  rcases p with ⟨first, steps⟩
  induction steps generalizing first gap with
  | nil => rfl
  | cons s steps ih =>
    have hlast : last ⟨first, s :: steps⟩ = last ⟨s.name, steps⟩ := by
      simp only [last, List.getLast?_cons]
      cases steps.getLast? <;> rfl
    have hqualified : first.token.isName = true ∧ True ∧
        (s.name.token.isName = true ∨ s.name.token.kind = .star) :=
      ⟨first.kind, trivial, Or.inl s.name.kind⟩
    have ih := ih s.after.1 s.name
    simp only [lexemes, List.flatMap_cons, Step.lexemes, List.map_cons, List.cons_append,
      List.nil_append, SelectItem.unqualify, top] at ih ⊢
    rw [if_pos hqualified, ih, hlast]
    rfl

end Path

/-! ## Sources -/

namespace Alias

theorem no_paren (a : Alias) : ∀ l ∈ a.lexemes, ¬ l.IsParen := by
  cases a with
  | none => simp [lexemes]
  | name space n => simpa [lexemes] using (n.not_isParen space.1).1
  | asName space word space' n =>
    have hn := (n.not_isParen space'.1).1
    simpa [lexemes, IsParen, Keyword.token] using hn

/-- All of an alias stands outside parentheses. -/
theorem run_eq (a : Alias) : run a.lexemes = a.lexemes.map top :=
  run_of_no_paren a.no_paren

/-- An alias is read as one. -/
theorem isAlias (a : Alias) : Run.IsAlias (run a.lexemes) := by
  rw [run_eq]
  cases a with
  | none => exact .none
  | name space n => exact .name n.isFreeName
  | asName space word space' n =>
    exact .asName (Placed.isTopKeyword_iff.2 ⟨rfl, word.isKeyword⟩) n.isFreeName

/-- An alias goes behind what ends an operand, and nothing else does where no alias stands and the
last lexeme does not look like one. -/
theorem operand_append (a : Alias) {r : Run} (hno : ∀ q ∈ r, q.isTopKeyword "AS" = false)
    (hlast : ∃ init z, r = init ++ [z] ∧ SelectItem.endsOperand z.token = true)
    (hnone : a = .none → SelectItem.endsInAlias r = false) :
    SelectItem.operand (r ++ run a.lexemes) = r := by
  obtain ⟨init, z, hr, hz⟩ := hlast
  cases r with
  | nil => exact absurd hr (by simp)
  | cons p ps =>
    have hps : ∀ q ∈ ps, q.isTopKeyword "AS" = false := fun q hq => hno q (by simp [hq])
    have hany : ps.any (·.isTopKeyword "AS") = false := by
      rw [List.any_eq_false]
      intro q hq
      simp [hps q hq]
    rw [run_eq, List.cons_append, SelectItem.operand]
    cases a with
    | none =>
      have hends := hnone rfl
      simp [Alias.lexemes, hany, hends]
    | name space n =>
      have has : (top ⟨space.1, n.token⟩).isTopKeyword "AS" = false :=
        Placed.isTopKeyword_of_isFreeName n.isFreeName (by simp)
      have hends : SelectItem.endsInAlias (p :: ps ++ [top ⟨space.1, n.token⟩]) = true := by
        rw [hr]
        simp [SelectItem.endsInAlias, top, n.kind, n.isReserved, hz]
      rw [List.cons_append] at hends
      have hdrop : (p :: (ps ++ [top ⟨space.1, n.token⟩])).dropLast = p :: ps := by
        rw [← List.cons_append, List.dropLast_concat]
      simp only [Alias.lexemes, List.map_cons, List.map_nil, List.any_append, hany, List.any_cons,
        has, List.any_nil, Bool.or_false, Bool.false_eq_true, if_false, hends, if_true, hdrop]
    | asName space word space' n =>
      have has : (top ⟨space.1, word.token⟩).isTopKeyword "AS" = true :=
        Placed.isTopKeyword_iff.2 ⟨rfl, word.isKeyword⟩
      have htake : (ps ++ [top ⟨space.1, word.token⟩, top ⟨space'.1, n.token⟩]).takeWhile
          (fun q => !q.isTopKeyword "AS") = ps := by
        rw [List.takeWhile_append_of_pos fun q hq => by simp [hps q hq]]
        simp [has]
      simp only [Alias.lexemes, List.map_cons, List.map_nil, List.any_append, hany, List.any_cons,
        has, Bool.true_or, Bool.false_or, if_true, htake]

end Alias

namespace Source

variable (s : Source) (gap : List Char)

/-- The run of a table is its path and then its alias. -/
theorem run_eq : run (s.lexemes gap) = run (s.path.lexemes gap) ++ run s.label.lexemes :=
  run_append (balanced_of_no_paren fun l hl => (s.path.kinds gap l hl).1)

/-- The operand of a select item is its path. -/
theorem operand_run : SelectItem.operand (run (s.lexemes gap)) = run (s.path.lexemes gap) := by
  have hshape := s.path.last_shape gap
  rw [run_eq]
  apply s.label.operand_append (s.path.no_as gap)
  · rcases hshape with h | ⟨init, d, g, h, -⟩
    · exact ⟨[], _, h, s.path.last.endsOperand⟩
    · exact ⟨init ++ [d], _, by rw [h, List.append_assoc]; rfl, s.path.last.endsOperand⟩
  · intro _
    rcases hshape with h | ⟨init, d, g, h, hd⟩
    · rw [h]
      rfl
    · simp [h, SelectItem.endsInAlias, SelectItem.endsOperand, hd]

/-- The column of a select item is the last name of its path. -/
theorem column_run : SelectItem.column (run (s.lexemes gap)) = s.path.last.token.text := by
  rw [SelectItem.column, operand_run, Path.unqualify_run]
  simp [Run.text, top]

/-- The table of an item of the FROM list is its path. -/
theorem tableName?_run (next : Run) :
    Query.tableName? (run (s.lexemes gap)) next = some s.path.text := by
  have hdot : Run.NoDot (run s.label.lexemes) := by
    have hnil : Run.NoDot [] := by simp [Run.NoDot]
    have := s.label.isAlias.noDot_append hnil
    rwa [List.append_nil] at this
  have hpath := (s.path.isNamePath gap).namePath?_append hdot
  rw [run_eq, Query.tableName?, hpath]
  dsimp only
  rw [if_neg, Path.text_run]
  rintro ⟨hlength, hall, -⟩
  rw [Alias.run_eq] at hlength hall
  cases ha : s.label with
  | none => simp [ha, Alias.lexemes] at hlength
  | name space n =>
    have hn := n.kind
    simp only [ha, Alias.lexemes, List.map_cons, List.map_nil, List.all_cons, List.all_nil, top,
      Bool.and_true, beq_iff_eq] at hall
    simp [Token.isName, hall] at hn
  | asName space word space' n => simp [ha, Alias.lexemes] at hlength

/-- A table has no comma. -/
theorem no_comma : ∀ p ∈ run (s.lexemes gap), p.isTop .comma = false := by
  rw [run_eq, Path.run_eq, Alias.run_eq, ← List.map_append]
  intro q hq
  rcases List.mem_map.1 hq with ⟨l, hl, rfl⟩
  have hname : ∀ (n : Name) (g : List Char), (top ⟨g, n.token⟩).isTop .comma = false := by
    intro n g
    cases n <;> rfl
  rcases List.mem_append.1 hl with hl | hl
  · rcases List.mem_cons.1 hl with rfl | hl
    · exact hname s.path.first gap
    · rcases List.mem_flatMap.1 hl with ⟨t, -, hl⟩
      rw [Step.lexemes, List.mem_cons, List.mem_singleton] at hl
      rcases hl with rfl | rfl
      · rfl
      · exact hname t.name t.after.1
  · cases ha : s.label with
    | none => simp [ha, Alias.lexemes] at hl
    | name space n =>
      obtain rfl : l = ⟨space.1, n.token⟩ := by simpa [ha, Alias.lexemes] using hl
      exact hname n space.1
    | asName space word space' n =>
      simp only [ha, Alias.lexemes, List.mem_cons, List.not_mem_nil, or_false] at hl
      rcases hl with rfl | rfl
      · rfl
      · exact hname n space'.1

end Source

/-! ## Fragments -/

namespace Fragment

variable (f : Fragment) (gap : Blank)

theorem ne_nil_run : run (f.lexemes gap.1) ≠ [] := by
  intro hnil
  rcases f.exists_lexemes gap with ⟨t, ls, -, hgap⟩
  have hmap := toLexeme_run (f.lexemes gap.1)
  rw [hnil, hgap] at hmap
  cases hmap

/-- A fragment keeps its text. -/
theorem text_run : Run.text (run (f.lexemes gap.1)) = f.text := by
  have hsource := f.sourceAll_lexemes gap
  rcases f.exists_lexemes gap with ⟨t, ls, -, hgap⟩
  rw [hgap] at hsource ⊢
  rw [Written.text_run]
  rw [sourceAll_cons, source, List.append_assoc] at hsource
  exact List.append_cancel_left hsource

/-- No keyword stands outside the parentheses of a fragment. -/
theorem no_keyword_run {p : Placed} {word : String} (hp : p ∈ run (f.lexemes gap.1))
    (hword : word ∈ Token.keywords) : p.isTopKeyword word = false := by
  rcases f.exists_of_mem gap hp with ⟨q, hq, htoken, hdepth⟩
  have := f.no_keyword q hq word hword
  rwa [Placed.isTopKeyword, htoken, hdepth] at this

/-- No token of a fragment opens a clause or a join. -/
theorem opensNone : ∀ p ∈ run (f.lexemes gap.1), p.OpensNone := by
  intro p hp c word hword
  exact f.no_keyword_run gap hp (Clause.mem_keywords_of_mem_openers hword)

end Fragment

/-- No comma stands outside the parentheses of an entry. -/
theorem Entry.no_comma_run (e : Entry) (gap : Blank) :
    ∀ p ∈ run (e.lexemes gap.1), p.isTop .comma = false := by
  intro p hp
  rcases e.exists_of_mem gap hp with ⟨q, hq, htoken, hdepth⟩
  have := e.no_comma q hq
  rwa [Placed.isTop, htoken, hdepth] at this

/-! ## Items of ORDER BY -/

/-- All of a direction stands outside parentheses. -/
theorem Sense.run_eq (s : Sense) : run s.lexemes = s.lexemes.map top := by
  apply run_of_no_paren
  cases s with
  | none => simp [lexemes]
  | named space direction word => simp [lexemes, IsParen, Keyword.token]

/-- A keyword outside parentheses is found there. -/
theorem Keyword.isTopKeyword {word : String} (k : Keyword word) (gap : List Char) :
    (top ⟨gap, k.token⟩).isTopKeyword word = true :=
  Placed.isTopKeyword_iff.2 ⟨rfl, k.isKeyword⟩

theorem Keyword.not_isParen {word : String} (k : Keyword word) (gap : List Char) :
    ¬ (⟨gap, k.token⟩ : Lexeme).IsParen := by
  simp [IsParen, Keyword.token]

/-- The letters of a direction are read as that direction. -/
theorem Keyword.ofWord?_letters {d : Direction} (k : Keyword d.keyword) :
    Direction.ofWord? k.letters = some d := by
  have hsame := k.same
  cases d with
  | ascending => simp [Direction.ofWord?, Direction.all, hsame]
  | descending =>
    have hne : Text.sameLetters k.letters Direction.ascending.keyword.toList = false := by
      cases h : Text.sameLetters k.letters Direction.ascending.keyword.toList with
      | false => rfl
      | true =>
        rw [Text.sameLetters_iff] at h hsame
        exact absurd (h.symm.trans hsame) (by decide)
    simp [Direction.ofWord?, Direction.all, hsame, hne]

/-- Behind a word that blanks follow, a blank stands. -/
theorem Space.isBlank_head? (space : Space) (cs : List Char) :
    ∀ c ∈ (space.1 ++ cs).head?, Text.isBlank c = true := by
  rcases List.exists_cons_of_ne_nil space.2.1 with ⟨b, bs, hbs⟩
  have hblank := space.2.2 b (by simp [hbs])
  simpa [hbs] using hblank

/-- The first word of a text that starts with no blank goes up to a blank or to the end. -/
theorem eq_append_of_head?_words {cs w : List Char}
    (hstart : ∀ c ∈ cs.head?, Text.isBlank c = false) (h : (Text.words cs).head? = some w) :
    ∃ tail, cs = w ++ tail ∧ ∀ c ∈ tail.head?, Text.isBlank c = true := by
  obtain ⟨hsplit, hword, htail⟩ := List.takeWhile_dropWhile_iff.1
    (And.intro (rfl : cs.takeWhile (fun c => !Text.isBlank c) = _) rfl)
  have hword : ∀ d ∈ cs.takeWhile fun c => !Text.isBlank c, Text.isBlank d = false := by
    simpa using hword
  have htail : ∀ c ∈ (cs.dropWhile fun c => !Text.isBlank c).head?, Text.isBlank c = true := by
    simpa using htail
  have hne : (cs.takeWhile fun c => !Text.isBlank c) ≠ [] := by
    cases cs with
    | nil => cases h
    | cons c cs => simp [hstart c rfl]
  refine ⟨_, ?_, htail⟩
  rw [hsplit, Text.words_append hne hword htail] at h
  rw [← Option.some.inj h]
  exact hsplit

/-- No fragment starts with a direction. -/
theorem Fragment.ofWord?_head_words (f : Fragment) {w : List Char}
    (h : (Text.words f.text).head? = some w) : Direction.ofWord? w = none := by
  cases hd : Direction.ofWord? w with
  | none => rfl
  | some d =>
    have hsame : Text.sameLetters w d.keyword.toList = true := by
      rw [Direction.ofWord?] at hd
      exact List.find?_some (p := fun d : Direction => Text.sameLetters w d.keyword.toList) hd
    -- the direction would be a keyword outside parentheses
    let k : Keyword d.keyword := ⟨w, hsame⟩
    rcases eq_append_of_head?_words f.starts h with ⟨tail, htext, htail⟩
    have hends : EndsName tail := endsName_of_startsWithBreak fun c hc =>
      Comment.isBreak_of_isBlank (htail c hc)
    have hreads := (k.legibleBefore ⟨[], by simp⟩ (by cases d <;> decide) hends).2
    have hofText : Lexeme.ofText f.text = ⟨[], k.token⟩ :: Lexeme.ofText tail := by
      rw [htext]
      simpa [source, Keyword.token, k] using hreads.ofText
    have hfirst : top ⟨[], k.token⟩ ∈ Run.place 0 (Lexeme.ofText f.text) := by
      rw [hofText, Run.place_other (k.not_isParen [])]
      exact List.mem_cons_self
    have hfree := f.no_keyword _ hfirst d.keyword (by cases d <;> decide)
    rw [k.isTopKeyword] at hfree
    cases hfree

namespace SortEntry

variable (e : SortEntry) (gap : Blank)

/-- The run of a sort key is its column, its direction and its further words. -/
theorem run_eq : run (e.lexemes gap.1) =
    run (e.column.lexemes gap.1) ++ (run e.sense.lexemes ++ run e.furtherLexemes) := by
  rw [lexemes, run_append (e.column.balanced_lexemes gap), run_append e.sense.piece.balanced]

theorem ne_nil_run : run (e.lexemes gap.1) ≠ [] := by
  rw [run_eq]
  simp [e.column.ne_nil_run gap]

/-- The further words are missing or a fragment behind a space. -/
theorem furtherLexemes_eq : e.furtherLexemes = [] ∨
    ∃ (f : Entry) (space : Space), e.furtherLexemes = f.lexemes space.1 := by
  rw [furtherLexemes]
  cases e.further with
  | none => exact Or.inl rfl
  | some x => exact Or.inr ⟨x.2, x.1, List.append_nil _⟩

/-- A lexeme of an item stands in its column, is its direction or stands in the further words. -/
theorem mem_run {p : Placed} (hp : p ∈ run (e.lexemes gap.1)) :
    (∃ (f : Entry) (gap : Blank), p ∈ run (f.lexemes gap.1)) ∨
      ∃ (space : Space) (d : Direction) (word : Keyword d.keyword),
        p = top ⟨space.1, word.token⟩ := by
  rw [run_eq, List.mem_append, List.mem_append, Sense.run_eq] at hp
  rcases hp with hp | hp | hp
  · exact Or.inl ⟨e.column, gap, hp⟩
  · right
    cases hs : e.sense with
    | none => simp [hs, Sense.lexemes] at hp
    | named space direction word =>
      exact ⟨space, direction, word, by simpa [hs, Sense.lexemes] using hp⟩
  · left
    rcases e.furtherLexemes_eq with hnil | ⟨f, space, hf⟩
    · rw [hnil] at hp
      cases hp
    · rw [hf] at hp
      exact ⟨f, space.blank, hp⟩

/-- The text of the run of a sort key starts with its column as it is written. -/
theorem text_run : Run.text (run (e.lexemes gap.1)) =
    e.column.text ++ sourceAll (e.sense.lexemes ++ e.furtherLexemes) := by
  have hcolumn := e.column.text_run gap
  rcases e.column.exists_lexemes gap with ⟨t, ls, -, hgap⟩
  rw [hgap, Written.text_run] at hcolumn
  rw [lexemes, hgap, List.cons_append, Written.text_run, sourceAll_append, ← List.append_assoc,
    hcolumn]

/-- The further words stand behind blank text and start with no direction. -/
theorem words_further : (∀ c ∈ (sourceAll e.furtherLexemes).head?, Text.isBlank c = true) ∧
    (Text.words (sourceAll e.furtherLexemes)).head?.bind Direction.ofWord? = none := by
  rcases e.furtherLexemes_eq with hnil | ⟨f, space, hf⟩
  · rw [hnil]
    exact ⟨by simp, rfl⟩
  · have hsource : sourceAll (f.lexemes space.1) = space.1 ++ f.text :=
      f.sourceAll_lexemes space.blank
    rw [hf, hsource]
    constructor
    · exact space.isBlank_head? f.text
    · rw [Text.words_blank_append _ space.2.2]
      cases hw : (Text.words f.text).head? with
      | none => rfl
      | some w => exact f.ofWord?_head_words hw

/-- Behind the column stand blank text and the direction, or none of them and no direction. -/
theorem words_behind : (∀ c ∈ (sourceAll (e.sense.lexemes ++ e.furtherLexemes)).head?,
      Text.isBlank c = true) ∧
    ((Text.words (sourceAll (e.sense.lexemes ++ e.furtherLexemes))).head?.bind
      Direction.ofWord?).getD .ascending = e.sense.direction := by
  rw [sourceAll_append]
  cases e.sense with
  | none =>
    rcases e.words_further with ⟨hblank, hnone⟩
    refine ⟨hblank, ?_⟩
    simp [Sense.lexemes, hnone, Sense.direction]
  | named space direction word =>
    rcases word.exists_cons (by cases direction <;> decide) with ⟨c, cs, hcs, -, hall⟩
    have hletters : ∀ d ∈ word.letters, Text.isBlank d = false := by
      rw [hcs]
      exact fun d hd => isBlank_of_isWordChar (hall d hd)
    have hsource : sourceAll (Sense.named space direction word).lexemes =
        space.1 ++ word.letters := by
      simp [Sense.lexemes, source, Keyword.token]
    rw [hsource, List.append_assoc]
    constructor
    · exact space.isBlank_head? _
    · have hdirection := word.ofWord?_letters
      rw [Text.words_blank_append _ space.2.2,
        Text.words_append (by simp [hcs]) hletters e.words_further.1]
      simp [hdirection, Sense.direction]

/-- The key of an item of ORDER BY is its column with its direction. -/
theorem ofItem?_run : SortKey.ofItem? (run (e.lexemes gap.1)) =
    some ⟨String.ofList e.column.text, e.sense.direction⟩ := by
  rcases e.words_behind with ⟨hblank, hdirection⟩
  rw [SortKey.ofItem?, text_run, Text.words_append e.column.ne_nil e.no_blank hblank, ← hdirection]

/-- No comma stands outside the parentheses of a sort key. -/
theorem no_comma_run : ∀ p ∈ run (e.lexemes gap.1), p.isTop .comma = false := by
  intro p hp
  rcases e.mem_run gap hp with ⟨f, gap', hp⟩ | ⟨space, direction, word, rfl⟩
  · exact f.no_comma_run gap' p hp
  · rfl

end SortEntry

/-! ## Lists -/

theorem comma_not_paren (before : Blank) : ¬ (comma before).IsParen := by
  simp [IsParen, comma]

/-- The items of a list, each with the blank text in front of it. -/
def CommaList.entries {α : Type} (l : CommaList α) : List (Blank × α) :=
  (l.space.blank, l.head) :: l.tail.map Prod.snd

/-- The items of a list are its entries without their gaps. -/
theorem CommaList.map_entries {α β : Type} (g : α → β) (l : CommaList α) :
    (l.entries.map fun e => g e.2) = l.items.map g := by
  simp [entries, items]

/-- The parts of a list between its commas are its items. -/
theorem CommaList.segments_run {α : Type} {f : List Char → α → List Lexeme}
    (hbalanced : ∀ (gap : Blank) x, Balanced (f gap.1 x))
    (hcomma : ∀ (gap : Blank) x, ∀ p ∈ run (f gap.1 x), p.isTop .comma = false)
    (l : CommaList α) :
    Run.segments (run (l.lexemes f)) = l.entries.map fun e => run (f e.1.1 e.2) := by
  have hgeneral : ∀ (tail : List (Blank × Blank × α)) (gap : Blank) (x : α),
      Run.segments (run (f gap.1 x ++ tail.flatMap fun y => comma y.1 :: f y.2.1.1 y.2.2)) =
        run (f gap.1 x) :: tail.map fun y => run (f y.2.1.1 y.2.2) := by
    intro tail
    induction tail with
    | nil =>
      intro gap x
      rw [List.flatMap_nil, List.append_nil, Run.segments,
        List.splitOnP_eq_singleton (hcomma gap x)]
      rfl
    | cons y tail ih =>
      intro gap x
      have hsep : (top (comma y.1)).isTop .comma = true := rfl
      rw [List.flatMap_cons, List.cons_append, run_append (hbalanced gap x),
        run_cons (comma_not_paren y.1), Run.segments,
        List.splitOnP_append_cons_of_forall_mem (hcomma gap x) _ hsep]
      exact congrArg _ (ih y.2.1 y.2.2)
  have := hgeneral l.tail l.space.blank l.head
  rw [lexemes, entries, List.map_cons, List.map_map]
  exact this

/-- The items of a list whose items are not empty. -/
theorem CommaList.items_run {α : Type} {f : List Char → α → List Lexeme}
    (hbalanced : ∀ (gap : Blank) x, Balanced (f gap.1 x))
    (hcomma : ∀ (gap : Blank) x, ∀ p ∈ run (f gap.1 x), p.isTop .comma = false)
    (hne : ∀ (gap : Blank) x, run (f gap.1 x) ≠ []) (l : CommaList α) :
    Run.items (run (l.lexemes f)) = l.entries.map fun e => run (f e.1.1 e.2) := by
  rw [Run.items, segments_run hbalanced hcomma, List.filter_eq_self]
  intro r hr
  rcases List.mem_map.1 hr with ⟨e, -, rfl⟩
  simpa using hne e.1 e.2

end SelectAlgebra.Written
