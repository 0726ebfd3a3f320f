import SelectAlgebra.Proofs.Query.Entries
import SelectAlgebra.Proofs.Query.JoinPieces
import SelectAlgebra.Proofs.Token.LetterCase
import SelectAlgebra.Query.OfText

/-!
# Queries and letter case

Keywords, reserved words and directions are read in any case, and nothing else of a text is
compared with a word.  So the query of a text in lower case is the query of the text in lower
case, and two texts that differ only in the case of letters are the same query but for that.

Main results:

- Theorem `Query.ofText?_lower`: the query of a text in lower case.
- Theorem `Query.ofText?_sameLetters`: queries and letter case.
-/

namespace SelectAlgebra

/-- The text in lower case. -/
def lowered (s : String) : String :=
  String.ofList (Text.lower s.toList)

/-- Putting a text in lower case is putting its characters in lower case. -/
@[simp]
theorem lowered_ofList (cs : List Char) :
    lowered (String.ofList cs) = String.ofList (Text.lower cs) := by
  rw [lowered, String.toList_ofList]

/-! ## Runs -/

/-- The placed lexeme in lower case. -/
def Placed.lower : Placed → Placed :=
  Placed.recast Lexeme.lower

/-- A token in lower case is read as the token is. -/
theorem Placed.faithful_lower : Placed.Faithful Placed.lower :=
  faithful_recast (fun _ => rfl) fun l word => Token.isKeyword_lower l.token word

namespace Run

/-- The statement of a text in lower case is its statement in lower case. -/
theorem ofText_lower (cs : List Char) :
    ofText (Text.lower cs) = (ofText cs).map Placed.lower := by
  have hstatement := map_ofText (g := Lexeme.lower) (fun _ => rfl) cs
  rw [Placed.lower, hstatement, ← Lexeme.ofText_lower, ← Comment.strip_lower]
  rfl

/-- The text of a run in lower case is its text in lower case. -/
theorem text_lower (r : Run) : text (r.map Placed.lower) = Text.lower (text r) := by
  have hsource : ∀ p : Placed, p.lower.source = Text.lower p.source := by
    intro p
    simp [Lexeme.source, Placed.lower, Placed.recast, Lexeme.lower, Token.lower]
  cases r with
  | nil => rfl
  | cons p ps =>
    rw [List.map_cons, text, text, Text.lower_append, List.flatMap_map]
    congr 1
    induction ps with
    | nil => rfl
    | cons q qs ih => rw [List.flatMap_cons, List.flatMap_cons, Text.lower_append, ih, hsource]

end Run

/-! ## Select items -/

namespace SelectItem

/-- A word is reserved in any case of its letters. -/
theorem isReserved_lower (t : Token) : isReserved t.lower = isReserved t := by
  rw [isReserved, isReserved, funext (Token.isKeyword_lower t)]

theorem endsOperand_lower (t : Token) : endsOperand t.lower = endsOperand t := by
  unfold endsOperand
  rw [isReserved_lower]
  rfl

theorem endsInAlias_lower (item : Run) :
    endsInAlias (item.map Placed.lower) = endsInAlias item := by
  unfold endsInAlias
  rw [← List.map_reverse]
  rcases item.reverse with _ | ⟨last, _ | ⟨previous, front⟩⟩
  · rfl
  · rfl
  · have hlast : isReserved last.lower.token = isReserved last.token :=
      isReserved_lower last.token
    have hprevious : endsOperand previous.lower.token = endsOperand previous.token :=
      endsOperand_lower previous.token
    simp only [List.map_cons, hlast, hprevious, Placed.faithful_lower.depth,
      Placed.faithful_lower.isName]

theorem operand_lower (item : Run) :
    operand (item.map Placed.lower) = (operand item).map Placed.lower := by
  have hword : (Placed.isTopKeyword "AS" ∘ Placed.lower) = Placed.isTopKeyword "AS" :=
    funext (Placed.faithful_lower.isTopKeyword "AS")
  have hstay : ((fun q => !Placed.isTopKeyword "AS" q) ∘ Placed.lower) =
      fun q => !Placed.isTopKeyword "AS" q :=
    funext fun q => congrArg not (Placed.faithful_lower.isTopKeyword "AS" q)
  cases item with
  | nil => rfl
  | cons p ps =>
    have hends := endsInAlias_lower (p :: ps)
    rw [List.map_cons] at hends
    rw [List.map_cons, operand, operand, List.any_map, hword, List.takeWhile_map, hstay, hends]
    split
    · rfl
    · split
      · rw [← List.map_cons, List.map_dropLast]
      · rfl

theorem withGap_lower (gap : List Char) (r : Run) :
    withGap (Text.lower gap) (r.map Placed.lower) = (withGap gap r).map Placed.lower := by
  cases r <;> rfl

/-- Qualifiers can be taken away before or behind the change of case. -/
theorem unqualify_lower (r : Run) :
    unqualify (r.map Placed.lower) = (unqualify r).map Placed.lower := by
  have hkind := Placed.faithful_lower.kind
  have hname := Placed.faithful_lower.isName
  fun_induction unqualify r with
  | case1 p d q r hqualifier ih =>
    have hgo : unqualify ((p :: d :: q :: r).map Placed.lower) =
        withGap (Text.lower p.gap) (unqualify ((q :: r).map Placed.lower)) := by
      simp [unqualify, hkind, hname, hqualifier]
      rfl
    rw [hgo, ih, withGap_lower]
  | case2 p d q r hplain ih =>
    have hstay : unqualify ((p :: d :: q :: r).map Placed.lower) =
        p.lower :: unqualify ((d :: q :: r).map Placed.lower) := by
      simp [unqualify, hkind, hname, hplain]
    rw [hstay, ih, List.map_cons]
  | case3 r hr =>
    match r, hr with
    | [], _ | [_], _ | [_, _], _ => rfl
    | p :: d :: q :: r, hr => exact absurd rfl (hr p d q r)

/-- The column of an item in lower case. -/
theorem column_lower (item : Run) : column (item.map Placed.lower) = Text.lower (column item) := by
  rw [column, column, operand_lower, unqualify_lower, Run.text_lower]

end SelectItem

/-! ## Entries -/

/-- The sort key with its column in lower case. -/
def SortKey.lower (k : SortKey) : SortKey :=
  ⟨lowered k.column, k.direction⟩

/-- A direction is read in any case of its letters. -/
theorem Direction.ofWord?_lower (word : List Char) :
    ofWord? (Text.lower word) = ofWord? word := by
  simp only [ofWord?, Text.sameLetters_lower]

/-- The sort key of an item in lower case is its sort key in lower case. -/
theorem SortKey.ofItem?_lower (item : Run) :
    ofItem? (item.map Placed.lower) = (ofItem? item).map lower := by
  unfold ofItem?
  rw [Run.text_lower, Text.words_lower]
  rcases Text.words (Run.text item) with _ | ⟨column, _ | ⟨word, rest⟩⟩
  · rfl
  · simp [lower]
  · simp [lower, Direction.ofWord?_lower]

/-- The join with its table and its condition in lower case. -/
def Join.lower (j : Join) : Join :=
  ⟨j.kind, lowered j.table, lowered j.condition⟩

/-- The joins of a run in lower case are its joins in lower case. -/
theorem Join.ofRun_lower (r : Run) : ofRun (r.map Placed.lower) = (ofRun r).map lower := by
  rw [← map_join_pieces, ← map_join_pieces, pieces_map Placed.faithful_lower, List.map_map,
    List.map_map]
  congr 1
  funext x
  simp [Pieces.recast, Pieces.join, lower, Run.text_lower]

namespace Query

/-- The query with all its entries in lower case. -/
def lower (q : Query) : Query where
  distinct := q.distinct
  tables := q.tables.map lowered
  columns := q.columns.map lowered
  conditions := q.conditions.map lowered
  joins := q.joins.map Join.lower
  groupBy := q.groupBy.map lowered
  orderBy := q.orderBy.map SortKey.lower
  having := q.having.map lowered

theorem tableName?_lower (item next : Run) :
    tableName? (item.map Placed.lower) (next.map Placed.lower) =
      (tableName? item next).map Text.lower := by
  have hnext : (next.map Placed.lower).head?.any (·.token.isName) =
      next.head?.any (·.token.isName) := by
    cases next <;> rfl
  have hword : (Text.words (Run.text (item.map Placed.lower))).head? =
      (Text.words (Run.text item)).head?.map Text.lower := by
    rw [Run.text_lower, Text.words_lower, List.head?_map]
  unfold tableName?
  rw [Run.namePath?_map Placed.faithful_lower, hword, hnext]
  cases Run.namePath? item with
  | none => rfl
  | some read =>
    have hdots : (read.2.map Placed.lower).all (·.token.kind == .dot) =
        read.2.all (·.token.kind == .dot) := by
      rw [List.all_map]
      rfl
    simp only [Option.map_some, List.length_map, hdots, Run.text_lower]
    split <;> rfl

/-- The tables of items in lower case are their tables in lower case. -/
theorem tableNames_lower (next : Run) (parts : List Run) :
    tableNames (next.map Placed.lower) (parts.map (List.map Placed.lower)) =
      (tableNames next parts).map Text.lower := by
  induction parts with
  | nil => rfl
  | cons item parts ih =>
    have hlast : (if parts.isEmpty then next.map Placed.lower else []) =
        (if parts.isEmpty then next else []).map Placed.lower := by
      split <;> rfl
    rw [List.map_cons, tableNames_cons, tableNames_cons, ih, List.isEmpty_map, hlast,
      tableName?_lower, List.map_append]
    cases tableName? item (if parts.isEmpty then next else []) <;> rfl

/-- The columns of a select list in lower case are its columns in lower case. -/
theorem columnsOf_lower (r : Run) :
    columnsOf (r.map Placed.lower) = (columnsOf r).map Text.lower := by
  have hcolumns : (Run.items (r.map Placed.lower)).map SelectItem.column =
      ((Run.items r).map SelectItem.column).map Text.lower := by
    rw [Run.items_map Placed.faithful_lower, List.map_map, List.map_map]
    congr 1
    funext item
    exact SelectItem.column_lower item
  rw [columnsOf, columnsOf, hcolumns, List.filter_map]
  congr 2
  funext column
  simp [Text.lower]

theorem predicates_lower (r : Run) :
    predicates (r.map Placed.lower) = (predicates r).map lowered := by
  rw [predicates, predicates, List.isEmpty_map, Run.text_lower]
  split
  · rfl
  · simp

theorem texts_lower (r : Run) :
    (Run.items (r.map Placed.lower)).map (fun i => String.ofList (Run.text i)) =
      ((Run.items r).map fun i => String.ofList (Run.text i)).map lowered := by
  rw [Run.items_map Placed.faithful_lower, List.map_map, List.map_map]
  congr 1
  funext i
  simp [Run.text_lower]

/-- The sort keys of a list in lower case are its sort keys in lower case. -/
theorem sortKeys_lower (r : Run) :
    (Run.items (r.map Placed.lower)).filterMap SortKey.ofItem? =
      ((Run.items r).filterMap SortKey.ofItem?).map SortKey.lower := by
  rw [Run.items_map Placed.faithful_lower, List.filterMap_map, List.map_filterMap]
  congr 1
  funext i
  exact SortKey.ofItem?_lower i

/-- The query of parts in lower case. -/
theorem ofParts?_lower (s : Parts) :
    ofParts? (s.recast Placed.lower) = (ofParts? s).map lower := by
  have hbody := Clause.body_map Placed.faithful_lower
  unfold ofParts?
  simp only [Parts.recast, columnsOf_lower, Run.segments_map Placed.faithful_lower,
    tableNames_lower, List.isEmpty_map, hbody, predicates_lower, Join.ofRun_lower, texts_lower,
    sortKeys_lower]
  split
  · rfl
  · simp [lower]

/-- The query of a text in lower case is its query in lower case. -/
theorem ofText?_lower (text : String) : ofText? (lowered text) = (ofText? text).map lower := by
  have hword : (Lexeme.next? (Text.lower text.toList)).any (·.1.token.isKeyword "SELECT") =
      (Lexeme.next? text.toList).any (·.1.token.isKeyword "SELECT") := by
    rw [Lexeme.next?_lower]
    cases Lexeme.next? text.toList with
    | none => rfl
    | some read => exact Token.isKeyword_lower read.1.token "SELECT"
  rw [ofText?, ofText?, lowered, String.toList_ofList, ofChars?, ofChars?, hword,
    Run.ofText_lower, ofRun?, ofRun?, Parts.ofRun?_map Placed.faithful_lower]
  split
  · cases Parts.ofRun? (Run.ofText text.toList) with
    | none => rfl
    | some s => exact ofParts?_lower s
  · rfl

end Query

/-! ## Two texts -/

/-- The two texts differ at most in the case of the letters A to Z. -/
def SameLetters (s s' : String) : Prop :=
  Text.sameLetters s.toList s'.toList = true

instance (s s' : String) : Decidable (SameLetters s s') :=
  inferInstanceAs (Decidable (_ = _))

/-- Texts with the same letters are the same in lower case. -/
theorem sameLetters_iff {s s' : String} : SameLetters s s' ↔ lowered s' = lowered s := by
  rw [SameLetters, Text.sameLetters_iff, lowered, lowered, String.ofList_inj, eq_comm]

/-- Joins of one kind whose entries differ at most in letter case. -/
structure Join.SameLetters (j j' : Join) : Prop where
  kind : j'.kind = j.kind
  table : SelectAlgebra.SameLetters j.table j'.table
  condition : SelectAlgebra.SameLetters j.condition j'.condition

/-- Sort keys of one direction whose columns differ at most in letter case. -/
structure SortKey.SameLetters (k k' : SortKey) : Prop where
  column : SelectAlgebra.SameLetters k.column k'.column
  direction : k'.direction = k.direction

/-- Joins that are the same in lower case have the same letters. -/
theorem Join.sameLetters_of_lower_eq {j j' : Join} (h : j'.lower = j.lower) :
    j.SameLetters j' := by
  obtain ⟨hkind, htable, hcondition⟩ := Join.mk.inj h
  exact ⟨hkind, sameLetters_iff.2 htable, sameLetters_iff.2 hcondition⟩

/-- Sort keys that are the same in lower case have the same letters. -/
theorem SortKey.sameLetters_of_lower_eq {k k' : SortKey} (h : k'.lower = k.lower) :
    k.SameLetters k' := by
  obtain ⟨hcolumn, hdirection⟩ := SortKey.mk.inj h
  exact ⟨sameLetters_iff.2 hcolumn, hdirection⟩

/-- Lists that are the same in lower case have the same letters entry by entry. -/
theorem forall₂_sameLetters {entries entries' : List String}
    (h : entries'.map lowered = entries.map lowered) :
    List.Forall₂ SameLetters entries entries' :=
  List.forall₂_of_map_eq (fun _ _ _ _ => sameLetters_iff.2) h

namespace Query

/-- The queries differ at most in the case of the letters A to Z of their entries. -/
structure SameLetters (q q' : Query) : Prop where
  distinct : q'.distinct = q.distinct
  tables : List.Forall₂ SelectAlgebra.SameLetters q.tables q'.tables
  columns : List.Forall₂ SelectAlgebra.SameLetters q.columns q'.columns
  conditions : List.Forall₂ SelectAlgebra.SameLetters q.conditions q'.conditions
  joins : List.Forall₂ Join.SameLetters q.joins q'.joins
  groupBy : List.Forall₂ SelectAlgebra.SameLetters q.groupBy q'.groupBy
  orderBy : List.Forall₂ SortKey.SameLetters q.orderBy q'.orderBy
  having : List.Forall₂ SelectAlgebra.SameLetters q.having q'.having

/-- Queries that are the same in lower case. -/
theorem sameLetters_of_lower_eq {q q' : Query} (h : q'.lower = q.lower) : q.SameLetters q' := by
  obtain ⟨hdistinct, htables, hcolumns, hconditions, hjoins, hgroupBy, horderBy, hhaving⟩ :=
    Query.mk.inj h
  exact {
    distinct := hdistinct
    tables := forall₂_sameLetters htables
    columns := forall₂_sameLetters hcolumns
    conditions := forall₂_sameLetters hconditions
    joins := List.forall₂_of_map_eq (fun _ _ _ _ => Join.sameLetters_of_lower_eq) hjoins
    groupBy := forall₂_sameLetters hgroupBy
    orderBy := List.forall₂_of_map_eq (fun _ _ _ _ => SortKey.sameLetters_of_lower_eq) horderBy
    having := forall₂_sameLetters hhaving }

/-- A query does not depend on letter case.  When two texts differ at most in the case of the
letters A to Z, inside quoted tokens or outside of them, then both are a query or both are none.
The queries agree in DISTINCT, in the number of entries of every list, in the kinds of their joins
and in their directions, and corresponding entries differ at most in the case of these letters. -/
theorem ofText?_of_sameLetters {text text' : String} (h : SelectAlgebra.SameLetters text text') :
    Option.Rel SameLetters (ofText? text) (ofText? text') := by
  have hlower : (ofText? text').map lower = (ofText? text).map lower := by
    rw [← ofText?_lower, ← ofText?_lower, sameLetters_iff.1 h]
  cases hq : ofText? text with
  | none =>
    rw [hq, Option.map_none, Option.map_eq_none_iff] at hlower
    rw [hlower]
    exact .none
  | some q =>
    rw [hq] at hlower
    rcases Option.map_eq_some_iff.1 hlower with ⟨q', hq', heq⟩
    rw [hq']
    exact .some (sameLetters_of_lower_eq heq)

/-- Keywords in other cases, and a letter that is not one of A to Z. -/
theorem ofText?_of_sameLetters_mixed :
    SelectAlgebra.SameLetters
        "SELECT DISTINCT T.Name AS n FROM É t FULL OUTER JOIN u ON u.A = t.b ORDER BY Name DESC"
        "select distinct t.NAME as N From É T Full Outer Join U On U.a = T.B order By naME dESC" ∧
      ofText?
          "select distinct t.NAME as N From É T Full Outer Join U On U.a = T.B order By naME dESC" =
        some ⟨true, ["É"], ["NAME"], [], [⟨.full, "U", "U.a = T.B"⟩], [],
          [⟨"naME", .descending⟩], []⟩ ∧
      Option.Rel SameLetters
        (ofText?
          "SELECT DISTINCT T.Name AS n FROM É t FULL OUTER JOIN u ON u.A = t.b ORDER BY Name DESC")
        (ofText?
          "select distinct t.NAME as N From É T Full Outer Join U On U.a = T.B order By naME dESC")
    := by
  have h : SelectAlgebra.SameLetters
      "SELECT DISTINCT T.Name AS n FROM É t FULL OUTER JOIN u ON u.A = t.b ORDER BY Name DESC"
      "select distinct t.NAME as N From É T Full Outer Join U On U.a = T.B order By naME dESC" := by
    decide +kernel
  exact ⟨h, by decide +kernel, ofText?_of_sameLetters h⟩

end Query

end SelectAlgebra
