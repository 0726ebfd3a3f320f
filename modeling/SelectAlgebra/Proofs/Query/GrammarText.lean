import SelectAlgebra.Proofs.Query.Acceptance
import SelectAlgebra.Proofs.Query.Grammar
import SelectAlgebra.Proofs.Token.Legible

/-!
# The text of a written statement

Each part of a written statement is a piece: it is read back wherever a break follows, it starts
with a break, its parentheses are balanced and no semicolon stands outside them.  Pieces written
one after another are a piece, so the text of a statement is read as the lexemes that were
written.

Main results:

- Theorems `Piece.append` and `Piece.flatMap`: pieces written one after another are a piece.
- Theorem `Statement.ofText_text`: the lexemes of the text of a statement are those written.
- Theorem `Statement.run_text`: so is the statement that is read from the text.
-/

namespace SelectAlgebra.Written

open Lexeme

/-! ## Letters -/

/-- The letters a to z. -/
def latinLetters : List Char :=
  "abcdefghijklmnopqrstuvwxyz".toList

/-- The word has a letter, and letters a to z only. -/
def IsLetters (word : String) : Prop :=
  word.toList ≠ [] ∧ ∀ c ∈ Text.lower word.toList, c ∈ latinLetters

instance (word : String) : Decidable (IsLetters word) :=
  inferInstanceAs (Decidable (_ ∧ _))

/-- A letter stands in words and is no digit. -/
theorem isWordChar_of_toLower {c : Char} (h : c.toLower ∈ latinLetters) :
    c.isDigit = false ∧ Token.isWordChar c = true := by
  have hcodes : c.toNat ∈ List.range' 65 26 ++ List.range' 97 26 := by
    unfold Char.toLower at h
    split at h
    · rename_i hupper
      have hlow : 65 ≤ c.toNat := hupper.1
      have hhigh : c.toNat ≤ 90 := hupper.2
      simp only [List.mem_append, List.mem_range'_1]
      omega
    · have hall : ∀ d ∈ latinLetters, d.toNat ∈ List.range' 65 26 ++ List.range' 97 26 := by
        decide
      exact hall c h
  have hall : ∀ n ∈ List.range' 65 26 ++ List.range' 97 26,
      (Char.ofNat n).isDigit = false ∧ Token.isWordChar (Char.ofNat n) = true := by
    decide +kernel
  have hc := hall _ hcodes
  rwa [Char.ofNat_toNat] at hc

/-- The letters of a keyword are a bare word, in any case. -/
theorem Keyword.exists_cons {word : String} (k : Keyword word) (h : IsLetters word) :
    ∃ c cs, k.letters = c :: cs ∧ c.isDigit = false ∧
      ∀ d ∈ c :: cs, Token.isWordChar d = true := by
  have hsame := Text.sameLetters_iff.1 k.same
  have hall : ∀ c ∈ k.letters, c.isDigit = false ∧ Token.isWordChar c = true := by
    intro c hc
    apply isWordChar_of_toLower
    apply h.2
    rw [← hsame]
    exact List.mem_map_of_mem hc
  have hne : k.letters ≠ [] := by
    intro hnil
    rw [hnil] at hsame
    exact h.1 (List.map_eq_nil_iff.1 hsame.symm)
  rcases List.exists_cons_of_ne_nil hne with ⟨c, cs, hcs⟩
  rw [hcs] at hall
  exact ⟨c, cs, hcs, (hall c (by simp)).1, fun d hd => (hall d hd).2⟩

/-- A keyword is read as the word that it spells. -/
theorem Keyword.isKeyword {word : String} (k : Keyword word) :
    k.token.isKeyword word = true := by
  rw [Token.isKeyword, Keyword.token, k.same]
  rfl

/-! ## Pieces -/

/-- Lexemes that are read back in front of a break, balanced and without semicolons. -/
structure Part (ls : List Lexeme) : Prop where
  legible : Legible ls
  balanced : Balanced ls
  no_semicolon : ∀ p ∈ Run.place 0 ls, p.isTop .semicolon = false

/-- A part that starts with a break, so that it can stand behind another one. -/
structure Piece (ls : List Lexeme) : Prop extends Part ls where
  starts : Token.StartsWithBreak (sourceAll ls)

namespace Part

/-- A piece can follow a part. -/
theorem append {ls ms : List Lexeme} (hls : Part ls) (hms : Piece ms) : Part (ls ++ ms) where
  legible := hls.legible.append hms.legible hms.starts
  balanced := hls.balanced.append hms.balanced
  no_semicolon := by
    rw [Run.place_append hls.balanced]
    intro p hp
    rcases List.mem_append.1 hp with hp | hp
    · exact hls.no_semicolon p hp
    · exact hms.no_semicolon p hp

/-- Legible lexemes without parentheses and semicolons are a part. -/
theorem of_legible {ls : List Lexeme} (h : Legible ls) (hparen : ∀ l ∈ ls, ¬ l.IsParen)
    (hkind : ∀ l ∈ ls, l.token.kind ≠ .semicolon) : Part ls where
  legible := h
  balanced := balanced_of_no_paren hparen
  no_semicolon := by
    rw [Run.place_of_no_paren hparen]
    intro p hp
    rcases List.mem_map.1 hp with ⟨l, hl, rfl⟩
    simp [Placed.isTop, hkind l hl]

end Part

namespace Piece

/-- The empty list is a piece. -/
theorem nil : Piece [] where
  legible := .nil
  balanced := rfl
  no_semicolon := by simp [Run.place]
  starts := by simp [Token.StartsWithBreak]

/-- A piece can follow a piece. -/
theorem append {ls ms : List Lexeme} (hls : Piece ls) (hms : Piece ms) : Piece (ls ++ ms) where
  toPart := hls.toPart.append hms
  starts := by
    rw [sourceAll_append]
    exact startsWithBreak_append hls.starts hms.starts

/-- A piece can follow a lexeme that is a piece. -/
theorem cons {l : Lexeme} {ls : List Lexeme} (hl : Piece [l]) (hls : Piece ls) :
    Piece (l :: ls) :=
  hl.append hls

/-- Pieces one behind the other are a piece. -/
theorem flatMap {α : Type} {f : α → List Lexeme} {xs : List α} (h : ∀ x, Piece (f x)) :
    Piece (xs.flatMap f) := by
  induction xs with
  | nil => exact nil
  | cons x xs ih =>
    rw [List.flatMap_cons]
    exact (h x).append ih

/-- What may be left out is a piece when it is one where it stands. -/
theorem optional {α : Type} {f : α → List Lexeme} {x : Option α} (h : ∀ y, Piece (f y)) :
    Piece (Statement.optional f x) :=
  flatMap h

end Piece

/-- A lexeme behind a blank starts with a character that ends every token. -/
theorem startsWithBreak_of_gap {l : Lexeme} {ls : List Lexeme} (hne : l.gap ≠ [])
    (hblank : ∀ c ∈ l.gap, Text.isBlank c = true) :
    Token.StartsWithBreak (sourceAll (l :: ls)) := by
  rcases List.exists_cons_of_ne_nil hne with ⟨c, cs, hcs⟩
  intro d hd
  have hc : d = c := by
    simp only [sourceAll_cons, source, hcs, List.cons_append, List.head?_cons,
      Option.mem_def, Option.some.injEq] at hd
    exact hd.symm
  subst hc
  exact Comment.isBreak_of_isBlank (hblank d (by simp [hcs]))

/-! ## Tokens -/

/-- A keyword is read back in front of a text that ends a name. -/
theorem Keyword.legibleBefore {word : String} (k : Keyword word) (gap : Blank)
    (h : IsLetters word) {b : List Char} (hb : EndsName b) :
    LegibleBefore b [⟨gap.1, k.token⟩] := by
  rcases k.exists_cons h with ⟨c, cs, hcs, hdigit, hall⟩
  rw [Keyword.token, hcs]
  exact legibleBefore_word gap.2 hdigit hall hb

/-- A name is read back in front of a text that ends a name. -/
theorem Name.legibleBefore (n : Name) (gap : Blank) {b : List Char} (hb : EndsName b) :
    LegibleBefore b [⟨gap.1, n.token⟩] := by
  cases n with
  | bare c cs digit chars free => exact legibleBefore_word gap.2 digit chars hb
  | quoted quote inside mark =>
    have hquote : isQuote quote = true ∧ quote ≠ '\x27' := by
      rcases mark with rfl | rfl <;> decide
    have := legibleBefore_inQuotes inside gap.2 hquote.1 hb
    rwa [if_neg hquote.2] at this

/-- Blank text that is not empty is blank text. -/
def Space.blank (s : Space) : Blank :=
  ⟨s.1, s.2.2⟩

@[simp]
theorem Space.val_blank (s : Space) : s.blank.1 = s.1 :=
  rfl

/-- A keyword is a part. -/
theorem Keyword.part {word : String} (k : Keyword word) (gap : Blank) (h : IsLetters word) :
    Part [⟨gap.1, k.token⟩] := by
  apply Part.of_legible
  · intro b hb
    exact k.legibleBefore gap h (endsName_of_startsWithBreak hb)
  · simp [IsParen, Keyword.token]
  · simp [Keyword.token]

/-- A keyword behind a space is a piece. -/
theorem Keyword.piece {word : String} (k : Keyword word) (space : Space) (h : IsLetters word) :
    Piece [⟨space.1, k.token⟩] where
  toPart := k.part space.blank h
  starts := startsWithBreak_of_gap space.2.1 space.2.2

theorem Name.kind (n : Name) : n.token.isName = true := by
  cases n <;> rfl

/-- A name is no parenthesis and no semicolon. -/
theorem Name.not_isParen (n : Name) (gap : List Char) :
    ¬ (⟨gap, n.token⟩ : Lexeme).IsParen ∧ n.token.kind ≠ .semicolon := by
  cases n <;> simp [IsParen, Name.token]

/-- A name behind a space is a piece. -/
theorem Name.piece (n : Name) (space : Space) : Piece [⟨space.1, n.token⟩] where
  toPart := by
    apply Part.of_legible
    · intro b hb
      exact n.legibleBefore space.blank (endsName_of_startsWithBreak hb)
    · simpa using (n.not_isParen space.1).1
    · simpa using (n.not_isParen space.1).2
  starts := startsWithBreak_of_gap space.2.1 space.2.2

/-! ## Paths -/

/-- A name stops in front of punctuation, whatever blank text stands between them. -/
theorem endsName_gap_append (gap : Blank) {c : Char} (cs : List Char)
    (hc : Token.isWordChar c = false ∧ isQuote c = false) : EndsName (gap.1 ++ c :: cs) := by
  intro d hd
  by_cases hgap : gap.1 = []
  · rw [hgap] at hd
    obtain rfl : d = c := by simpa using hd.symm
    exact hc
  · rcases List.exists_cons_of_ne_nil hgap with ⟨e, es, hes⟩
    rw [hes] at hd
    obtain rfl : d = e := by simpa using hd.symm
    have hbreak := Comment.isBreak_of_isBlank (gap.2 d (by simp [hes]))
    exact ⟨Token.isWordChar_of_isBreak hbreak, Token.isQuote_of_isBreak hbreak⟩

/-- A name ends where a step of a path begins. -/
theorem endsName_step (s : Step) (rest : List Char) : EndsName (sourceAll s.lexemes ++ rest) := by
  rw [Step.lexemes, sourceAll_cons, source, List.append_assoc, List.append_assoc]
  exact endsName_gap_append s.before _ (by decide)

/-- The steps of a path are read back, and a name ends in front of them. -/
theorem Steps.legibleBefore (steps : List Step) {b : List Char} (hb : EndsName b) :
    LegibleBefore b (steps.flatMap Step.lexemes) ∧
      EndsName (sourceAll (steps.flatMap Step.lexemes) ++ b) := by
  induction steps with
  | nil => exact ⟨.nil b, hb⟩
  | cons s steps ih =>
    rcases ih with ⟨hread, hends⟩
    rw [List.flatMap_cons]
    constructor
    · apply LegibleBefore.append _ hread
      have hname := s.name.legibleBefore s.after hends
      exact (legibleBefore_mark _ s.before.2 rfl (by decide) (by decide)).append hname
    · rw [sourceAll_append, List.append_assoc]
      exact endsName_step s _

/-- A path is read back in front of a text that ends a name. -/
theorem Path.legibleBefore (p : Path) (gap : Blank) {b : List Char} (hb : EndsName b) :
    LegibleBefore b (p.lexemes gap.1) := by
  rcases Steps.legibleBefore p.steps hb with ⟨hread, hends⟩
  have hfirst := p.first.legibleBefore gap hends
  exact hfirst.append hread

/-- A path has no parenthesis and no semicolon. -/
theorem Path.kinds (p : Path) (gap : List Char) :
    ∀ l ∈ p.lexemes gap, ¬ l.IsParen ∧ l.token.kind ≠ .semicolon := by
  intro l hl
  rcases List.mem_cons.1 hl with rfl | hl
  · exact p.first.not_isParen gap
  · rcases List.mem_flatMap.1 hl with ⟨s, -, hl⟩
    rw [Step.lexemes, List.mem_cons, List.mem_singleton] at hl
    rcases hl with rfl | rfl
    · simp [IsParen]
    · exact s.name.not_isParen s.after.1

/-- A path is a part. -/
theorem Path.part (p : Path) (gap : Blank) : Part (p.lexemes gap.1) := by
  apply Part.of_legible
  · intro b hb
    exact p.legibleBefore gap (endsName_of_startsWithBreak hb)
  · exact fun l hl => (p.kinds gap.1 l hl).1
  · exact fun l hl => (p.kinds gap.1 l hl).2

theorem Alias.piece (a : Alias) : Piece a.lexemes := by
  cases a with
  | none => exact .nil
  | name space n => exact n.piece space
  | asName space word space' n =>
    exact (word.piece space (by decide)).cons (n.piece space')

/-- A table with its alias is a part. -/
theorem Source.part (s : Source) (gap : Blank) : Part (s.lexemes gap.1) :=
  (s.path.part gap).append s.label.piece

/-- A table with its alias behind a blank is a piece. -/
theorem Source.piece (s : Source) (space : Space) : Piece (s.lexemes space.1) where
  toPart := s.part space.blank
  starts := by
    rw [Source.lexemes, Path.lexemes, List.cons_append]
    exact startsWithBreak_of_gap space.2.1 space.2.2

/-! ## Fragments -/

namespace Fragment

variable (f : Fragment)

/-- A fragment starts with a character that is no blank. -/
theorem exists_cons : ∃ c cs, f.text = c :: cs ∧ Text.isBlank c = false := by
  rcases List.exists_cons_of_ne_nil f.ne_nil with ⟨c, cs, hcs⟩
  exact ⟨c, cs, hcs, f.starts c (by simp [hcs])⟩

/-- Blank text in front of a fragment only goes into the gap of its first lexeme. -/
theorem exists_lexemes (gap : Blank) :
    ∃ t ls, Lexeme.ofText f.text = ⟨[], t⟩ :: ls ∧ f.lexemes gap.1 = ⟨gap.1, t⟩ :: ls := by
  rcases f.exists_cons with ⟨c, cs, hcs, hc⟩
  have hnone : next? f.text = some (⟨[], (Token.read c cs).1⟩, (Token.read c cs).2) := by
    rw [hcs]
    exact next?_cons cs hc
  have hgap : next? (gap.1 ++ f.text) =
      some (⟨gap.1, (Token.read c cs).1⟩, (Token.read c cs).2) := by
    rw [hcs]
    exact next?_gap_append gap.2 hc
  exact ⟨_, _, ofText_eq_cons hnone, ofText_eq_cons hgap⟩

/-- The lexemes of a fragment stand as they do in its text, whatever blank text is in front. -/
theorem exists_of_mem (gap : Blank) {p : Placed} (hp : p ∈ Run.place 0 (f.lexemes gap.1)) :
    ∃ q ∈ Run.place 0 (Lexeme.ofText f.text), q.token = p.token ∧ q.depth = p.depth := by
  rcases f.exists_lexemes gap with ⟨t, ls, htext, hgap⟩
  rw [hgap] at hp
  rw [htext]
  by_cases hl : t.kind = .leftParen
  · rw [Run.place_left hl] at hp ⊢
    rcases List.mem_cons.1 hp with rfl | hp
    · exact ⟨_, List.mem_cons_self, rfl, rfl⟩
    · exact ⟨p, List.mem_cons_of_mem _ hp, rfl, rfl⟩
  · by_cases hr : t.kind = .rightParen
    · rw [Run.place_right hr] at hp ⊢
      rcases List.mem_cons.1 hp with rfl | hp
      · exact ⟨_, List.mem_cons_self, rfl, rfl⟩
      · exact ⟨p, List.mem_cons_of_mem _ hp, rfl, rfl⟩
    · have hparen : ∀ g, ¬ (⟨g, t⟩ : Lexeme).IsParen := by
        intro g h
        exact h.elim hl hr
      rw [Run.place_other (hparen _)] at hp ⊢
      rcases List.mem_cons.1 hp with rfl | hp
      · exact ⟨_, List.mem_cons_self, rfl, rfl⟩
      · exact ⟨p, List.mem_cons_of_mem _ hp, rfl, rfl⟩

/-- A fragment closes all its parentheses. -/
theorem balanced_lexemes (gap : Blank) : Balanced (f.lexemes gap.1) := by
  rcases f.exists_lexemes gap with ⟨t, ls, htext, hgap⟩
  have h := f.balanced
  rw [htext] at h
  rw [hgap]
  exact h

/-- A fragment ends with a character that is no blank. -/
theorem stops_append (gap : Blank) :
    ∀ c ∈ (gap.1 ++ f.text).getLast?, Text.isBlank c = false := by
  intro c hc
  rcases Option.isSome_iff_exists.1 (List.getLast?_isSome.2 f.ne_nil) with ⟨d, hd⟩
  rw [List.getLast?_append, hd] at hc
  obtain rfl : d = c := by simpa using hc
  exact f.stops d hd

/-- The lexemes of a fragment spell it behind its gap. -/
theorem sourceAll_lexemes (gap : Blank) : sourceAll (f.lexemes gap.1) = gap.1 ++ f.text :=
  (sourceAll_ofText (f.stops_append gap)).1

/-- A fragment is a part. -/
theorem part (gap : Blank) : Part (f.lexemes gap.1) where
  legible := by
    rcases Comment.scan_gap f.text gap.2 with ⟨hstrip, hmode⟩
    apply legible_ofText
    · rw [hstrip, f.no_comment]
    · rw [Comment.Closed, hmode]
      exact f.closed
    · exact f.stops_append gap
  balanced := f.balanced_lexemes gap
  no_semicolon := by
    intro p hp
    rcases f.exists_of_mem gap hp with ⟨q, hq, htoken, hdepth⟩
    have := f.no_semicolon q hq
    rwa [Placed.isTop, htoken, hdepth] at this

/-- A fragment behind a blank is a piece. -/
theorem piece (space : Space) : Piece (f.lexemes space.1) where
  toPart := f.part space.blank
  starts := by
    have hsource : sourceAll (f.lexemes space.1) = space.1 ++ f.text :=
      f.sourceAll_lexemes space.blank
    rcases List.exists_cons_of_ne_nil space.2.1 with ⟨c, cs, hcs⟩
    intro d hd
    rw [hsource, hcs] at hd
    obtain rfl : d = c := by simpa using hd.symm
    exact Comment.isBreak_of_isBlank (space.2.2 d (by simp [hcs]))

end Fragment

theorem Sense.piece (s : Sense) : Piece s.lexemes := by
  cases s with
  | none => exact .nil
  | named space direction word => exact word.piece space (by cases direction <;> decide)

/-- The further words of a sort key are a piece. -/
theorem SortEntry.further_piece (e : SortEntry) : Piece e.furtherLexemes :=
  .flatMap fun x => x.2.piece x.1

/-- A sort key is a part. -/
theorem SortEntry.part (e : SortEntry) (gap : Blank) : Part (e.lexemes gap.1) :=
  (e.column.part gap).append (e.sense.piece.append e.further_piece)

/-- A sort key behind a blank is a piece. -/
theorem SortEntry.piece (e : SortEntry) (space : Space) : Piece (e.lexemes space.1) :=
  (e.column.piece space).append (e.sense.piece.append e.further_piece)

/-! ## Lists and clauses -/

/-- A comma in front of a part is a piece, whatever blank text stands around it. -/
theorem Part.comma_cons {ls : List Lexeme} (h : Part ls) (before : Blank) :
    Piece (comma before :: ls) where
  legible := by
    intro b hb
    have hcomma : LegibleBefore (sourceAll ls ++ b) [comma before] :=
      legibleBefore_mark _ before.2 rfl (by decide) (by decide)
    exact hcomma.append (h.legible b hb)
  balanced := by
    have hparen : ¬ (comma before).IsParen := by
      simp [IsParen, comma]
    rw [Lexeme.Balanced, depthBehind_other hparen]
    exact h.balanced
  no_semicolon := by
    have hparen : ¬ (comma before).IsParen := by
      simp [IsParen, comma]
    rw [Run.place_other hparen]
    intro p hp
    rcases List.mem_cons.1 hp with rfl | hp
    · simp [Placed.isTop, comma]
    · exact h.no_semicolon p hp
  starts := by
    by_cases hgap : before.1 = []
    · intro c hc
      simp only [sourceAll_cons, source, comma, hgap] at hc
      obtain rfl : c = ',' := by simpa using hc.symm
      decide
    · exact startsWithBreak_of_gap (l := comma before) hgap before.2

/-- A list of parts is a piece. -/
theorem CommaList.piece {α : Type} {f : List Char → α → List Lexeme}
    (hpart : ∀ (gap : Blank) x, Part (f gap.1 x))
    (hpiece : ∀ (space : Space) x, Piece (f space.1 x))
    (l : CommaList α) : Piece (l.lexemes f) :=
  (hpiece l.space l.head).append
    (Piece.flatMap fun x => (hpart x.2.1 x.2.2).comma_cons x.1)

/-- The words of a join are a piece. -/
theorem JoinSpelling.piece (s : JoinSpelling) : Piece s.lexemes := by
  cases s with
  | bare space join => exact join.piece space (by decide)
  | named kind space word space' join =>
    have hword := word.piece space (by cases kind <;> decide)
    exact hword.cons (join.piece space' (by decide))
  | withOuter kind outer space word space' outerWord space'' join =>
    have hword := word.piece space (by cases kind <;> decide)
    have houter := outerWord.piece space' (by decide)
    exact hword.cons (houter.cons (join.piece space'' (by decide)))

theorem JoinClause.piece (j : JoinClause) : Piece j.lexemes := by
  have hon := j.onWord.piece j.onSpace (by decide)
  have hcondition := j.condition.piece j.conditionSpace
  exact j.spelling.piece.append ((j.source.piece j.space).append (hon.cons hcondition))

/-- A clause with a predicate is a piece. -/
theorem PredicateClause.piece {word : String} (c : PredicateClause word) (h : IsLetters word) :
    Piece c.lexemes :=
  (c.opener.piece c.space h).cons (c.predicate.piece c.predicateSpace)

/-- A clause with a list is a piece when its entries are. -/
theorem ListClause.piece {word : String} {α : Type} {f : List Char → α → List Lexeme}
    (h : IsLetters word) (hpart : ∀ (gap : Blank) x, Part (f gap.1 x))
    (hpiece : ∀ (space : Space) x, Piece (f space.1 x)) (c : ListClause word α) :
    Piece (c.lexemes f) :=
  (c.opener.piece c.space h).cons
    ((c.byWord.piece c.bySpace (by decide)).cons (c.list.piece hpart hpiece))

/-- DISTINCT and ALL are pieces. -/
theorem Quantifier.piece (q : Quantifier) : Piece q.lexemes := by
  cases q with
  | distinct space word => exact word.piece space (by decide)
  | all space word => exact word.piece space (by decide)

/-! ## Statements -/

namespace Statement

variable (w : Statement)

/-- The clauses behind the joins are a piece. -/
theorem piece_sectionLexemes : Piece w.sectionLexemes := by
  apply Piece.append
  · exact Piece.optional fun c => c.piece (by decide)
  · apply Piece.append
    · exact Piece.optional
        (ListClause.piece (by decide) (fun gap e => e.part gap) fun space e => e.piece space)
    · apply Piece.append
      · exact Piece.optional fun c => c.piece (by decide)
      · exact Piece.optional
          (ListClause.piece (by decide) (fun gap e => e.part gap) fun space e => e.piece space)

/-- The lexemes of the statement with others in place of its select list. -/
def lexemesWith (list : List Lexeme) : List Lexeme :=
  ⟨w.lead.1, w.select.token⟩ :: (optional Quantifier.lexemes w.quantifier ++
    (list ++ ⟨w.fromSpace.1, w.fromWord.token⟩ :: (w.sources.lexemes Source.lexemes ++
      (w.joins.flatMap JoinClause.lexemes ++ w.sectionLexemes))))

/-- A statement with another select list is a part. -/
theorem part_lexemesWith {list : List Lexeme} (h : Piece list) : Part (w.lexemesWith list) := by
  have hsources : Piece (w.sources.lexemes Source.lexemes) :=
    w.sources.piece (fun gap s => s.part gap) fun space s => s.piece space
  have hclauses : Piece (w.joins.flatMap JoinClause.lexemes ++ w.sectionLexemes) :=
    (Piece.flatMap JoinClause.piece).append w.piece_sectionLexemes
  have hfrom := w.fromWord.piece w.fromSpace (by decide)
  have hselect := w.select.part w.lead (by decide)
  exact hselect.append ((Piece.optional Quantifier.piece).append (h.append
    (hfrom.cons (hsources.append hclauses))))

/-- A statement is a part. -/
theorem part_lexemes : Part w.lexemes :=
  w.part_lexemesWith (w.selected.piece (fun gap s => s.part gap) fun space s => s.piece space)

/-- The text of lexemes in front of the end of the statement: a semicolon, if there is one, and
blank text. -/
def endedText (ls : List Lexeme) : List Char :=
  sourceAll (ls ++ w.semicolonLexemes) ++ w.trail.1

section Ended

variable {ls : List Lexeme}

/-- A statement is read back with its semicolon and what follows it. -/
theorem legible_ended (h : Part ls) : Legible (ls ++ w.semicolonLexemes) := by
  apply h.legible.append
  · cases h : w.semicolon with
    | none =>
      simp only [semicolonLexemes, optional, h]
      exact Legible.nil
    | some before =>
      intro b _
      simp only [semicolonLexemes, optional, h]
      exact legibleBefore_mark b before.2 rfl (by decide) (by decide)
  · cases h : w.semicolon with
    | none =>
      simp [semicolonLexemes, optional, h, Token.StartsWithBreak]
    | some before =>
      intro c hc
      by_cases hgap : before.1 = []
      · obtain rfl : c = ';' := by
          simpa [semicolonLexemes, optional, h, source, hgap] using hc.symm
        decide
      · have hstart : Token.StartsWithBreak (sourceAll [⟨before.1, ⟨.semicolon, [';']⟩⟩]) :=
          startsWithBreak_of_gap hgap before.2
        apply hstart c
        simpa [semicolonLexemes, optional, h] using hc

/-- The text of a part with the end of the statement behind it holds no comment, and its lexemes
are those that were written. -/
theorem ofText_endedText (h : Part ls) : Comment.strip (w.endedText ls) = w.endedText ls ∧
    Lexeme.ofText (w.endedText ls) = ls ++ w.semicolonLexemes :=
  (w.legible_ended h).ofText w.trail.2

/-- The statement that is read from the text ends in front of the semicolon. -/
theorem run_endedText (h : Part ls) : Run.ofText (w.endedText ls) = Run.place 0 ls := by
  rcases w.ofText_endedText h with ⟨hstrip, hlexemes⟩
  rw [Run.ofText, hstrip, hlexemes, Run.place_append h.balanced, List.takeWhile_append_of_pos]
  · have hstop :
        (Run.place 0 w.semicolonLexemes).takeWhile (fun p => !p.isTop .semicolon) = [] := by
      cases h : w.semicolon with
      | none => simp [semicolonLexemes, optional, h, Run.place]
      | some before => simp [semicolonLexemes, optional, h, Run.place, Placed.isTop]
    rw [hstop, List.append_nil]
  · intro p hp
    simp [h.no_semicolon p hp]

/-- A text whose first word is SELECT asks a query. -/
theorem startsWithSelect_endedText {gap : List Char} (k : Keyword "SELECT")
    (h : Part (⟨gap, k.token⟩ :: ls)) :
    StartsWithSelect (String.ofList (w.endedText (⟨gap, k.token⟩ :: ls))) := by
  rcases w.ofText_endedText h with ⟨-, hlexemes⟩
  refine ⟨⟨gap, k.token⟩, ?_, k.isKeyword⟩
  rw [String.toList_ofList, hlexemes]
  rfl

end Ended

/-- The text of a statement holds no comment, and its lexemes are those that were written. -/
theorem ofText_text : Comment.strip w.text = w.text ∧
    Lexeme.ofText w.text = w.lexemes ++ w.semicolonLexemes :=
  w.ofText_endedText w.part_lexemes

/-- The statement that is read from the text ends in front of the semicolon. -/
theorem run_text : Run.ofText w.text = Run.place 0 w.lexemes :=
  w.run_endedText w.part_lexemes

/-- The text of a statement asks a query. -/
theorem startsWithSelect : StartsWithSelect (String.ofList w.text) :=
  w.startsWithSelect_endedText w.select w.part_lexemes

end Statement

end SelectAlgebra.Written
