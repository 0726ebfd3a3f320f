import SelectAlgebra.Proofs.Query.ColumnTokens
import SelectAlgebra.Proofs.Query.GrammarItems

/-!
# Sort keys as they are written

The items of ORDER BY are told apart by their tokens, but the column and the direction of an item
are the first two words of its text, whatever tokens these words are made of.  So a column is kept
as it is written when its text is one word, and a direction when a word of its own names it.

Main results:

- Theorem `Text.head?_words_append_iff`: when the first word of a text ends at a given place.
- Theorem `SortKey.ofWord?_head?_words_iff`: when the first word behind a column is DESC.
- Theorem `Query.orderBy_asWritten_iff`: which items of ORDER BY are read as they are written.
-/

namespace SelectAlgebra

/-- The first part of a text is its first word exactly when it holds no blank and a blank or nothing
follows. -/
theorem Text.head?_words_append_iff {w tail : List Char} (hne : w ≠ [])
    (hstart : ∀ c ∈ w.head?, isBlank c = false) :
    (words (w ++ tail)).head? = some w ↔
      (∀ c ∈ w, isBlank c = false) ∧ ∀ c ∈ tail.head?, isBlank c = true := by
  constructor
  · intro h
    have hhead : ∀ c ∈ (w ++ tail).head?, isBlank c = false := by
      rcases List.exists_cons_of_ne_nil hne with ⟨c, cs, rfl⟩
      exact hstart
    rcases Written.eq_append_of_head?_words hhead h with ⟨rest, heq, hrest⟩
    rw [List.append_cancel_left heq]
    exact ⟨(mem_words (List.mem_of_mem_head? h)).2, hrest⟩
  · rintro ⟨hword, htail⟩
    rw [words_append hne hword htail]
    rfl

namespace Run

/-- The run is empty or a blank stands in front of it. -/
def StandsApart (r : Run) : Prop :=
  r = [] ∨ headGap r ≠ []

instance (r : Run) : Decidable (StandsApart r) :=
  inferInstanceAs (Decidable (_ ∨ _))

/-- The text of two runs in a row is that of the first and the source of the second. -/
theorem text_append {r : Run} (hne : r ≠ []) (s : Run) :
    text (r ++ s) = text r ++ sourceText s := by
  rcases List.exists_cons_of_ne_nil hne with ⟨p, r, rfl⟩
  rw [List.cons_append, text, text, List.flatMap_append, List.append_assoc, flatMap_source s,
    sourceText_eq]

/-- The text of a run that is read back starts with no blank. -/
theorem ReadBack.text_head? {r : Run} (h : ReadBack r) :
    ∀ c ∈ (text r).head?, Text.isBlank c = false := by
  cases r with
  | nil => simp [text]
  | cons p r =>
    obtain ⟨c, cs, htext, hc⟩ := Lexeme.text_of_next? (readBack_cons_iff.1 h).1
    intro d hd
    rw [text, htext] at hd
    cases hd
    exact hc

/-- Blanks are what keeps a run apart. -/
theorem ReadBack.standsApart_iff {r : Run} (h : ReadBack r) :
    StandsApart r ↔ ∀ c ∈ (sourceText r).head?, Text.isBlank c = true := by
  rw [sourceText_eq, StandsApart]
  cases hgap : headGap r with
  | cons b bs =>
    have hb : Text.isBlank b = true := h.isBlank_headGap b (by simp [hgap])
    simp [hb]
  | nil =>
    cases r with
    | nil => simp [text]
    | cons p r =>
      obtain ⟨c, cs, htext, hc⟩ := Lexeme.text_of_next? (readBack_cons_iff.1 h).1
      simp [text, htext, hc]

end Run

open Run (headGap sourceText ReadBack StandsApart)

/-- The direction that is written at the start of a run. -/
def Direction.writtenAt (r : Run) : Direction :=
  if r.head?.any (·.token.isKeyword "DESC") then .descending else .ascending

namespace SortKey

/-- A word that is read as a direction has the letters of its keyword. -/
theorem sameLetters_of_ofWord? {w : List Char} {d : Direction} (h : Direction.ofWord? w = some d) :
    Text.sameLetters w d.keyword.toList = true :=
  List.find?_some (p := fun d : Direction => Text.sameLetters w d.keyword.toList) h

/-- The first word of a run is DESC exactly when its first token is and nothing follows directly. -/
theorem ofWord?_head?_words_iff {p : Placed} {r : Run} (h : ReadBack (p :: r)) :
    (Text.words (Run.text (p :: r))).head?.bind Direction.ofWord? = some .descending ↔
      p.token.isKeyword "DESC" = true ∧ StandsApart r := by
  have hrest := (Run.readBack_cons_iff.1 h).2
  have htext : Run.text (p :: r) = p.token.text ++ sourceText r := by
    rw [Run.text_cons_eq, Run.sourceText_eq]
  rw [hrest.standsApart_iff]
  constructor
  · intro hdirection
    obtain ⟨w, hw, hword⟩ := Option.bind_eq_some_iff.1 hdirection
    let k : Written.Keyword Direction.descending.keyword := ⟨w, sameLetters_of_ofWord? hword⟩
    obtain ⟨tail, hsplit, htail⟩ := Written.eq_append_of_head?_words h.text_head? hw
    -- the word is a token by itself, so it is the first one
    have hends : Lexeme.EndsName tail := Lexeme.endsName_of_startsWithBreak fun c hc =>
      Comment.isBreak_of_isBlank (htail c hc)
    have hkeyword := (k.legibleBefore ⟨[], by simp⟩ (by decide) hends).2
    have hnone : ∀ c ∈ ([] : List Char), Text.isBlank c = true := by simp
    have hfirst := (Run.readBack_cons_iff.1 (h.withGap hnone)).1
    have hsource : ({ p with gap := [] } : Placed).source ++ sourceText r =
        Lexeme.sourceAll [⟨[], k.token⟩] ++ tail := by
      change p.token.text ++ sourceText r = (w ++ []) ++ tail
      rw [← htext, hsplit, List.append_nil]
    rw [hsource] at hfirst
    cases hkeyword with
    | next hnext hdone =>
      cases hdone
      rw [hnext] at hfirst
      obtain ⟨hlexeme, hrest'⟩ := Prod.mk.inj (Option.some.inj hfirst)
      have htoken : k.token = p.token := congrArg Lexeme.token hlexeme
      rw [← htoken, ← hrest']
      exact ⟨k.isKeyword, htail⟩
  · rintro ⟨hkeyword, htail⟩
    obtain ⟨hkind, hsame⟩ := Bool.and_eq_true_iff.1 hkeyword
    let k : Written.Keyword Direction.descending.keyword := ⟨p.token.text, hsame⟩
    obtain ⟨c, cs, hk, -, hall⟩ := k.exists_cons (by decide)
    have hletters : p.token.text = c :: cs := hk
    have hblank : ∀ d ∈ p.token.text, Text.isBlank d = false := by
      rw [hletters]
      exact fun d hd => Lexeme.isBlank_of_isWordChar (hall d hd)
    have hne : p.token.text ≠ [] := by simp [hletters]
    have hstart : ∀ d ∈ p.token.text.head?, Text.isBlank d = false :=
      fun d hd => hblank d (List.mem_of_mem_head? hd)
    rw [htext, (Text.head?_words_append_iff hne hstart).2 ⟨hblank, htail⟩]
    exact k.ofWord?_letters

/-- What stands behind a column is read as the direction that is written there, unless that is DESC
and something follows it directly. -/
theorem direction_eq_writtenAt_iff {rest : Run} (h : ReadBack rest) :
    ((Text.words (sourceText rest)).head?.bind Direction.ofWord?).getD .ascending =
        Direction.writtenAt rest ↔
      ∀ p r, rest = p :: r → p.token.isKeyword "DESC" = true → StandsApart r := by
  rw [Run.sourceText_eq, Text.words_blank_append _ h.isBlank_headGap]
  cases rest with
  | nil =>
    refine iff_of_true rfl ?_
    rintro p r ⟨⟩
  | cons p r =>
    have hword := ofWord?_head?_words_iff h
    have hread : ∀ d : Option Direction,
        d.getD .ascending = .descending ↔ d = some .descending := by
      rintro (- | - | -) <;> decide
    have hwritten :
        Direction.writtenAt (p :: r) = .descending ↔ p.token.isKeyword "DESC" = true := by
      cases hkeyword : p.token.isKeyword "DESC" <;> simp [Direction.writtenAt, hkeyword]
    have hcases : ∀ d d' : Direction, d = d' ↔ (d = .descending ↔ d' = .descending) := by
      rintro (- | -) (- | -) <;> decide
    rw [hcases, hread, hword, hwritten]
    constructor
    · rintro hiff q s ⟨⟩ hkeyword
      exact (hiff.2 hkeyword).2
    · intro hapart
      exact ⟨fun hboth => hboth.1, fun hkeyword => ⟨hkeyword, hapart p r rfl hkeyword⟩⟩

/-- An item is read as a column and the direction behind it, as they are written, exactly when the
column is one word and the direction stands apart. -/
theorem ofItem?_eq_some_iff {cs : List Char} {column rest : Run}
    (h : Run.PieceOf cs (column ++ rest)) (hne : column ≠ []) :
    ofItem? (column ++ rest) =
        some ⟨String.ofList (Run.text column), Direction.writtenAt rest⟩ ↔
      (∀ c ∈ Run.text column, Text.isBlank c = false) ∧ StandsApart rest ∧
        ∀ p r, rest = p :: r → p.token.isKeyword "DESC" = true → StandsApart r := by
  have hcolumn : ReadBack column := (h.of_infix (List.prefix_append column rest).isInfix).reads
  have hrest : ReadBack rest := (h.of_infix (List.suffix_append column rest).isInfix).reads
  have htext : Run.text column ≠ [] := by
    obtain ⟨p, r, rfl⟩ := List.exists_cons_of_ne_nil hne
    obtain ⟨c, cs, hc, -⟩ := SelectItem.read_head_of_readBack hcolumn
    simp [Run.text, hc]
  have hfirst : (Text.words (Run.text column ++ sourceText rest)).head? = some (Run.text column) ↔
      (∀ c ∈ Run.text column, Text.isBlank c = false) ∧
        ∀ c ∈ (sourceText rest).head?, Text.isBlank c = true :=
    Text.head?_words_append_iff htext hcolumn.text_head?
  have hwords : ((∀ c ∈ Run.text column, Text.isBlank c = false) ∧
      ∀ c ∈ (sourceText rest).head?, Text.isBlank c = true) →
      Text.words (Run.text column ++ sourceText rest) =
        Run.text column :: Text.words (sourceText rest) := by
    rintro ⟨hword, htail⟩
    exact Text.words_append htext hword htail
  rw [ofItem?, Run.text_append hne, hrest.standsApart_iff, ← and_assoc,
    ← direction_eq_writtenAt_iff hrest]
  constructor
  · intro hkey
    have hone : (Text.words (Run.text column ++ sourceText rest)).head? =
        some (Run.text column) := by
      cases hsplit : Text.words (Run.text column ++ sourceText rest) with
      | nil =>
        rw [hsplit] at hkey
        cases hkey
      | cons w ws =>
        rw [hsplit] at hkey
        have hname := congrArg SortKey.column (Option.some.inj hkey)
        rw [List.head?_cons, String.ofList_inj.1 hname]
    rw [hwords (hfirst.1 hone)] at hkey
    exact ⟨hfirst.1 hone, congrArg SortKey.direction (Option.some.inj hkey)⟩
  · rintro ⟨hone, hdirection⟩
    rw [hwords hone]
    simp only [hdirection]

end SortKey

namespace Query

/-- The items of the ORDER BY list of a text. -/
def sortItems (text : String) : List Run :=
  (Parts.ofRun? (Run.ofText text.toList)).elim [] fun s =>
    Run.items (Clause.body .ordering s.clauses)

/-- The sort keys of a query are read from the items of its ORDER BY list, which are pieces of its
text. -/
theorem orderBy_sortItems {text : String} {q : Query} (h : ofText? text = some q) :
    List.Forall₂ (fun item key => SortKey.ofItem? item = some key) (sortItems text) q.orderBy ∧
      ∀ item ∈ sortItems text, Run.PieceOf (Comment.strip text.toList) item := by
  rcases exists_outline_of_ofText? h with ⟨hselect, o, ho⟩
  have hitems : sortItems text = Run.items (Clause.body .ordering o.clauses) := by
    rw [sortItems, o.ofRun?_eq (o.isKeyword_opener hselect)]
    rfl
  have hclauses := o.pieceOf.2.2
  have hpiece : Run.PieceOf (Comment.strip text.toList) (Clause.body .ordering o.clauses) :=
    hclauses.of_infix (Clause.infix_body .ordering o.clauses)
  have horder : q.orderBy =
      (Run.items (Clause.body .ordering o.clauses)).filterMap SortKey.ofItem? := by
    unfold ofParts? at ho
    dsimp only at ho
    split at ho
    · cases ho
    · rw [← Option.some.inj ho]
      rfl
  rw [hitems, horder]
  constructor
  · apply List.forall₂_filterMap
    intro item hitem
    exact SortKey.ofItem?_isSome (hpiece.solid.item hitem) (Run.mem_items hitem).1
  · exact fun item hitem => hpiece.of_infix (Run.infix_of_mem_items hitem)

/-- The sort keys as they are written.  However an item of an ORDER BY list is split into a column,
be it a reference, a call or anything else, and what follows it, the key of the item is the text of
the column with the direction written behind it exactly when this text holds no blank, a blank
stands between the column and what follows, and between a DESC and what follows that. -/
theorem orderBy_asWritten_iff {text : String} {q : Query} (h : ofText? text = some q) :
    List.Forall₂ (fun item key => ∀ column rest, item = column ++ rest → column ≠ [] →
        (key = ⟨String.ofList (Run.text column), Direction.writtenAt rest⟩ ↔
          (∀ c ∈ Run.text column, Text.isBlank c = false) ∧ StandsApart rest ∧
            ∀ p r, rest = p :: r → p.token.isKeyword "DESC" = true → StandsApart r))
      (sortItems text) q.orderBy := by
  obtain ⟨hkeys, hpiece⟩ := orderBy_sortItems h
  have hitems := (List.forall₂_and_left _ _).2 ⟨hpiece, hkeys⟩
  refine hitems.imp ?_
  rintro item key ⟨hitem, hkey⟩ column rest rfl hne
  rw [← SortKey.ofItem?_eq_some_iff hitem hne, hkey, Option.some.injEq]

/-- A call without a blank, a direction and further words. -/
def sortedByCall : String :=
  "SELECT * FROM t ORDER BY f(a) desc NULLS LAST"

/-- The item is split behind the call. -/
theorem sortItems_sortedByCall : sortItems sortedByCall =
    [[⟨⟨[' '], ⟨.word, ['f']⟩⟩, 0⟩, ⟨⟨[], ⟨.leftParen, ['(']⟩⟩, 0⟩, ⟨⟨[], ⟨.word, ['a']⟩⟩, 1⟩,
        ⟨⟨[], ⟨.rightParen, [')']⟩⟩, 0⟩] ++
      [⟨⟨[' '], ⟨.word, "desc".toList⟩⟩, 0⟩, ⟨⟨[' '], ⟨.word, "NULLS".toList⟩⟩, 0⟩,
        ⟨⟨[' '], ⟨.word, "LAST".toList⟩⟩, 0⟩]] := by
  decide +kernel

/-- The call and its direction are read as they are written. -/
theorem orderBy_asWritten_sortedByCall :
    ∃ q, ofText? sortedByCall = some q ∧ q.orderBy = [⟨"f(a)", .descending⟩] := by
  have hsome : (ofText? sortedByCall).isSome = true := by decide +kernel
  obtain ⟨q, hq⟩ := Option.isSome_iff_exists.1 hsome
  have hkeys := orderBy_asWritten_iff hq
  rw [sortItems_sortedByCall] at hkeys
  obtain ⟨key, keys, hkey, hkeys, horder⟩ := List.forall₂_cons_left_iff.1 hkeys
  rw [List.forall₂_nil_left_iff.1 hkeys] at horder
  refine ⟨q, hq, ?_⟩
  rw [horder, (hkey _ _ rfl (by simp)).2]
  · rfl
  · refine ⟨by decide, Or.inr (by decide), ?_⟩
    rintro p r ⟨⟩ -
    exact Or.inr (by decide)

/-- A quoted name with a blank in it, and a direction. -/
def sortedByName : String :=
  "SELECT * FROM t ORDER BY \"Order Date\" DESC"

/-- Not every reference without blanks around its dots is read as it is written, not even where
nothing follows it or a direction and further words, each behind a blank. -/
theorem not_forall_orderBy_asWritten :
    ¬ ∀ text q, ofText? text = some q → List.Forall₂ (fun item key => ∀ path rest,
        item = path ++ rest → Run.IsDotted path → (∀ p ∈ path.tail, p.gap = []) →
        (rest = [] ∨ ∃ p words, rest = p :: words ∧
          (p.token.isKeyword "ASC" = true ∨ p.token.isKeyword "DESC" = true) ∧ p.gap ≠ [] ∧
          ∀ w ∈ words, w.token.kind = .word ∧ w.gap ≠ []) →
        key = ⟨String.ofList (Run.text path), Direction.writtenAt rest⟩)
      (sortItems text) q.orderBy := by
  intro hall
  have hquery : ofText? sortedByName =
      some ⟨false, ["t"], ["*"], [], [], [], [⟨"\"Order", .ascending⟩], []⟩ := by
    decide +kernel
  have hitems : sortItems sortedByName =
      [[⟨⟨[' '], ⟨.quotedName, "\"Order Date\"".toList⟩⟩, 0⟩] ++
        [⟨⟨[' '], ⟨.word, "DESC".toList⟩⟩, 0⟩]] := by
    decide +kernel
  have hkeys := hall _ _ hquery
  rw [hitems] at hkeys
  obtain ⟨hkey, -⟩ := List.forall₂_cons.1 hkeys
  have hdirection := congrArg SortKey.direction (hkey _ _ rfl (.name rfl) (by simp)
    (Or.inr ⟨_, [], rfl, Or.inr (by decide), by simp, by simp⟩))
  revert hdirection
  decide

end Query

end SelectAlgebra
