import SelectAlgebra.Proofs.Query.JoinPieces
import SelectAlgebra.Proofs.Query.Provenance
import SelectAlgebra.Proofs.Token.Separated

/-!
# Queries and layout

Blanks and comments between tokens have no say in what a query is.  Two texts whose tokens are the
same once comments are taken out are both a query or both none, and the queries have the same
shape: as many entries in every list, joins of the same kinds, and entries with the same tokens
wherever an entry is the text of whole tokens.

Main results:

- Theorem `Token.ofText_text`: the text of a piece of a text has the tokens of the piece.
- Theorem `Query.sameShape_of_relaid`: parts that differ in their gaps are the same query but for
  the blanks in its entries.
- Theorem `Query.ofText?_of_sameTokens`: queries and layout.
-/

namespace SelectAlgebra

/-- The tokens of a text. -/
def Token.ofText (cs : List Char) : List Token :=
  (Lexeme.ofText cs).map Lexeme.token

/-- The two texts have the same tokens, kind and text. -/
def SameTokens (s s' : String) : Prop :=
  Token.ofText s.toList = Token.ofText s'.toList

instance (s s' : String) : Decidable (SameTokens s s') :=
  inferInstanceAs (Decidable (_ = _))

/-! ## Pieces of a text -/

namespace Run

/-- The run is made of consecutive lexemes of the text. -/
def PieceOf (cs : List Char) (r : Run) : Prop :=
  ∃ front back, Lexeme.ofText cs = front ++ (r.map Placed.toLexeme ++ back)

variable {cs : List Char} {r s : Run}

/-- The run of a text is a piece of it. -/
theorem pieceOf_ofText (cs : List Char) : PieceOf (Comment.strip cs) (ofText cs) := by
  rcases Query.exists_ofText_eq cs with ⟨back, hback⟩
  exact ⟨[], back, hback⟩

/-- What stands together in a piece is a piece. -/
theorem PieceOf.of_infix (h : PieceOf cs r) (hs : s <:+: r) : PieceOf cs s := by
  rcases h with ⟨front, back, hcs⟩
  rcases hs with ⟨a, b, rfl⟩
  refine ⟨front ++ a.map Placed.toLexeme, b.map Placed.toLexeme ++ back, ?_⟩
  rw [hcs]
  simp only [List.map_append, List.append_assoc]

/-- Every token of a piece starts with a character that is no blank. -/
theorem PieceOf.solid (h : PieceOf cs r) : r.Solid := by
  rcases h with ⟨front, back, hcs⟩
  intro p hp
  refine Lexeme.Reads.forall_ofText Lexeme.text_of_next? cs p.toLexeme ?_
  rw [hcs]
  simp [List.mem_map_of_mem hp]

/-- The parts of a comma list stand in the list in one piece. -/
theorem infix_of_mem_segments (h : s ∈ segments r) : s <:+: r := by
  induction r using segmentsInduction with
  | one t hone =>
    rw [hone, List.mem_singleton] at h
    exact h ▸ List.infix_refl s
  | more t comma rest _ hmore ih =>
    rw [hmore] at h
    rcases List.mem_cons.1 h with rfl | h
    · exact (List.prefix_append s _).isInfix
    · have hrest : rest <:+ t ++ comma :: rest :=
        (List.suffix_cons comma rest).trans (List.suffix_append t _)
      exact (ih h).trans hrest.isInfix

/-- The tokens of an item stand together. -/
theorem infix_of_mem_items (h : s ∈ items r) : s <:+: r :=
  infix_of_mem_segments (List.mem_of_mem_filter h)

end Run

open Run (PieceOf)

/-- The lists and the clauses of a statement are pieces of its text without comments. -/
theorem Outline.pieceOf {cs : List Char} (o : Outline (Run.ofText cs)) :
    PieceOf (Comment.strip cs) o.selected ∧ PieceOf (Comment.strip cs) o.sources ∧
      PieceOf (Comment.strip cs) o.clauses := by
  have hselected : o.selected <:+: Run.ofText cs := by
    refine ⟨o.opener :: o.quantifier, o.fromWord :: (o.sources ++ o.clauses), ?_⟩
    refine Eq.trans ?_ o.run_eq.symm
    simp
  have hbehind := o.infix_behindFrom
  have hwhole := Run.pieceOf_ofText cs
  exact ⟨hwhole.of_infix hselected,
    hwhole.of_infix ((List.prefix_append o.sources o.clauses).isInfix.trans hbehind),
    hwhole.of_infix ((List.suffix_append o.sources o.clauses).isInfix.trans hbehind)⟩

/-- A piece of a text is read back from its own source. -/
theorem Run.PieceOf.reads {cs : List Char} {r : Run} (h : PieceOf cs r) :
    Lexeme.Reads (Lexeme.sourceAll (r.map Placed.toLexeme)) (r.map Placed.toLexeme) [] := by
  rcases h with ⟨front, back, hcs⟩
  rcases Lexeme.Reads.of_ofText cs with ⟨blank, -, hreads⟩
  rw [hcs] at hreads
  rcases hreads.split with ⟨start, -, hreads⟩
  rcases hreads.split with ⟨rest, hpiece, -⟩
  -- the text behind the piece does not matter for its lexemes
  apply Lexeme.Reads.front (v := rest)
  rw [← hpiece.source] at hpiece
  exact hpiece

/-- Only blanks stand in front of the tokens of a piece. -/
theorem Run.PieceOf.isBlank_gap {cs : List Char} {r : Run} (h : PieceOf cs r) :
    ∀ p ∈ r, ∀ c ∈ p.gap, Text.isBlank c = true := by
  rcases h with ⟨front, back, hcs⟩
  intro p hp
  have hmem : p.toLexeme ∈ Lexeme.ofText cs := by
    rw [hcs]
    simp [List.mem_map_of_mem hp]
  exact Lexeme.isBlank_of_mem_gap _ hmem

/-- The text of a piece of a text has the tokens of the piece. -/
theorem Token.ofText_text {cs : List Char} {r : Run} (h : PieceOf cs r) :
    ofText (Run.text r) = r.map (·.token) := by
  have htokens : (Lexeme.ofText (Lexeme.sourceAll (r.map Placed.toLexeme))).map Lexeme.token =
      r.map (·.token) := by
    rw [h.reads.ofText, Lexeme.ofText_eq_nil rfl, List.append_nil, List.map_map]
    rfl
  cases r with
  | nil => exact htokens
  | cons p ps =>
    have hgap := h.isBlank_gap p List.mem_cons_self
    rw [Run.sourceAll_map, Lexeme.map_token_ofText_blank_append _ hgap] at htokens
    exact htokens

/-! ## Lexemes without their gaps -/

/-- The lexeme without its gap. -/
def Lexeme.bare (l : Lexeme) : Lexeme :=
  ⟨[], l.token⟩

/-- The placed lexeme without its gap. -/
def Placed.bare : Placed → Placed :=
  Placed.recast Lexeme.bare

/-- A token without its gap is read as the token is. -/
theorem Placed.faithful_bare : Placed.Faithful Placed.bare :=
  faithful_recast (fun _ => rfl) fun _ _ => rfl

namespace Run

/-- Runs that only differ in their gaps have the same tokens. -/
theorem map_token_of_map_bare {r r' : Run} (h : r'.map Placed.bare = r.map Placed.bare) :
    r'.map (·.token) = r.map (·.token) := by
  have := congrArg (List.map fun p : Placed => p.token) h
  rwa [List.map_map, List.map_map] at this

/-- Texts with the same tokens have the same statement but for its gaps. -/
theorem map_bare_ofText {cs cs' : List Char}
    (h : Token.ofText (Comment.strip cs') = Token.ofText (Comment.strip cs)) :
    (ofText cs').map Placed.bare = (ofText cs).map Placed.bare := by
  have hbare : ∀ ls : List Lexeme,
      ls.map Lexeme.bare = (ls.map Lexeme.token).map (Lexeme.mk []) := by
    intro ls
    rw [List.map_map]
    rfl
  have hstatement := map_ofText (g := Lexeme.bare) fun _ => rfl
  rw [Token.ofText, Token.ofText] at h
  rw [Placed.bare, hstatement, hstatement, hbare, hbare, h]

/-- Runs with the same tokens have a dot together. -/
theorem noDot_of_map_bare {r r' : Run} (h : r'.map Placed.bare = r.map Placed.bare)
    (hr : r.NoDot) : r'.NoDot := by
  have htokens := congrArg List.head? (map_token_of_map_bare h)
  rw [List.head?_map, List.head?_map] at htokens
  intro p hp
  rw [hp, Option.map_some] at htokens
  rcases Option.map_eq_some_iff.1 htokens.symm with ⟨q, hq, hqp⟩
  rw [← hqp]
  exact hr q hq

/-- Pieces of two texts that only differ in their gaps. -/
structure Relaid (cs cs' : List Char) (r r' : Run) : Prop where
  piece : PieceOf cs r
  piece' : PieceOf cs' r'
  bare_eq : r'.map Placed.bare = r.map Placed.bare

end Run

namespace Run.Relaid

variable {cs cs' : List Char} {r r' : Run}

/-- The texts of runs that differ in their layout have the same tokens. -/
theorem sameTokens (h : Relaid cs cs' r r') :
    SameTokens (String.ofList (text r)) (String.ofList (text r')) := by
  rw [SameTokens, String.toList_ofList, String.toList_ofList, Token.ofText_text h.piece,
    Token.ofText_text h.piece', map_token_of_map_bare h.bare_eq]

/-- The items of runs that differ in their layout do so one by one. -/
theorem items (h : Relaid cs cs' r r') :
    List.Forall₂ (Relaid cs cs') (Run.items r) (Run.items r') := by
  have heq := congrArg Run.items h.bare_eq
  rw [Run.items_map Placed.faithful_bare, Run.items_map Placed.faithful_bare] at heq
  exact List.forall₂_of_map_eq (fun s hs s' hs' hbare =>
    ⟨h.piece.of_infix (infix_of_mem_items hs), h.piece'.of_infix (infix_of_mem_items hs'), hbare⟩)
    heq

/-- The bodies of a clause differ in their layout when the runs do. -/
theorem body (h : Relaid cs cs' r r') (c : Clause) : Relaid cs cs' (c.body r) (c.body r') where
  piece := h.piece.of_infix (Clause.infix_body c r)
  piece' := h.piece'.of_infix (Clause.infix_body c r')
  bare_eq := by
    rw [← Clause.body_map Placed.faithful_bare, ← Clause.body_map Placed.faithful_bare, h.bare_eq]

/-- Runs that differ in their layout are empty together. -/
theorem isEmpty_eq (h : Relaid cs cs' r r') : r'.isEmpty = r.isEmpty := by
  have := congrArg List.isEmpty h.bare_eq
  rwa [List.isEmpty_map, List.isEmpty_map] at this

end Run.Relaid

/-! ## Joins -/

/-- Joins of one kind whose tables and conditions have the same tokens. -/
structure Join.SameTokens (j j' : Join) : Prop where
  kind : j'.kind = j.kind
  table : SelectAlgebra.SameTokens j.table j'.table
  condition : SelectAlgebra.SameTokens j.condition j'.condition

open Run (Relaid)

/-- The joins of runs that differ in their layout have the same tokens. -/
theorem Join.sameTokens_of_relaid {cs cs' : List Char} {r r' : Run} (h : Relaid cs cs' r r') :
    List.Forall₂ Join.SameTokens (ofRun r) (ofRun r') := by
  have heq := congrArg pieces h.bare_eq
  rw [pieces_map Placed.faithful_bare, pieces_map Placed.faithful_bare] at heq
  rw [← map_join_pieces, ← map_join_pieces, List.forall₂_map_left_iff, List.forall₂_map_right_iff]
  refine List.forall₂_of_map_eq (fun x hx x' hx' hbare => ?_) heq
  have hstands := standsIn_of_mem_pieces x hx
  have hstands' := standsIn_of_mem_pieces x' hx'
  obtain ⟨hkind, hpath, hcondition⟩ := Pieces.mk.inj hbare
  exact {
    kind := hkind
    table := Relaid.sameTokens ⟨h.piece.of_infix hstands.path_infix,
      h.piece'.of_infix hstands'.path_infix, hpath⟩
    condition := Relaid.sameTokens ⟨h.piece.of_infix hstands.condition_infix,
      h.piece'.of_infix hstands'.condition_infix, hcondition⟩ }

/-! ## Tables -/

/-- The item of a FROM list is a dotted path and what follows it.  An alias may follow; all that
is asked is that no further dot does. -/
def Run.IsTableItem (item : Run) : Prop :=
  ∃ path label, item = path ++ label ∧ path.IsDotted ∧ label.NoDot

namespace Query

/-- The table has the tokens of the path of the item. -/
def TableOf (item : Run) (table : List Char) : Prop :=
  ∀ path label, Run.namePath? item = some (path, label) → label.NoDot →
    Token.ofText table = path.map (·.token)

/-- An item of a FROM list has a table. -/
theorem exists_tableName? {cs : List Char} {item : Run} (next : Run) (h : PieceOf cs item)
    (hs : item.Solid) (hne : item ≠ []) : ∃ table, tableName? item next = some table ∧
      TableOf item table := by
  rcases Option.isSome_iff_exists.1 (tableName?_isSome next hs hne) with ⟨table, htable⟩
  refine ⟨table, htable, fun path label hpath hlabel => ?_⟩
  -- nothing of the item's path is past its end, since what follows the path is not a dot
  have hplain : ¬ (label.length = 1 ∧ label.all (·.token.kind == .dot) ∧
      next.head?.any (·.token.isName)) := by
    rintro ⟨hlength, hdot, -⟩
    rcases List.length_eq_one_iff.1 hlength with ⟨d, rfl⟩
    exact hlabel d rfl (by simpa using hdot)
  simp only [tableName?, hpath, if_neg hplain, Option.some.injEq] at htable
  have hprefix : path <+: item := ⟨label, Run.namePath?_append hpath⟩
  rw [← htable]
  exact Token.ofText_text (h.of_infix hprefix.isInfix)

/-- The tables of a FROM list belong to its items, in order. -/
theorem forall₂_tableNames {cs : List Char} (next : Run) {parts : List Run}
    (h : ∀ s ∈ parts, PieceOf cs s) (hs : ∀ s ∈ parts, s.Solid) :
    List.Forall₂ TableOf (parts.filter fun s => !s.isEmpty) (tableNames next parts) := by
  induction parts with
  | nil => exact .nil
  | cons s parts ih =>
    have htail := ih (fun t ht => h t (by simp [ht])) fun t ht => hs t (by simp [ht])
    rw [tableNames_cons, List.filter_cons]
    by_cases hne : s = []
    · simpa [hne] using htail
    · rcases exists_tableName? _ (h s (by simp)) (hs s (by simp)) hne with ⟨table, htable, hof⟩
      rw [htable, if_pos (by simpa using hne)]
      exact .cons hof htail

/-- An item that is relaid has a table with the same tokens. -/
theorem sameTokens_of_tableOf {cs cs' : List Char} {item item' : Run} {table table' : List Char}
    (hitem : Relaid cs cs' item item') (h : TableOf item table) (h' : TableOf item' table')
    (hpath : item.IsTableItem) :
    SameTokens (String.ofList table) (String.ofList table') := by
  rcases hpath with ⟨path, label, rfl, hpath, hlabel⟩
  have hread := hpath.namePath?_append hlabel
  have hread' := Run.namePath?_map Placed.faithful_bare item'
  rw [hitem.bare_eq, Run.namePath?_map Placed.faithful_bare, hread] at hread'
  rcases Option.map_eq_some_iff.1 hread'.symm with ⟨⟨path', label'⟩, hsplit, heq⟩
  obtain ⟨hpaths, hlabels⟩ := Prod.mk.inj heq
  rw [SameTokens, String.toList_ofList, String.toList_ofList, h path label hread hlabel,
    h' path' label' hsplit (Run.noDot_of_map_bare hlabels hlabel), Run.map_token_of_map_bare hpaths]

/-- The tables of items that differ in their layout have the same tokens, if the items are tables.
-/
theorem forall₂_sameTokens_tables {cs cs' : List Char} {items items' : List Run}
    {tables tables' : List (List Char)} (hitems : List.Forall₂ (Relaid cs cs') items items')
    (h : List.Forall₂ TableOf items tables) (h' : List.Forall₂ TableOf items' tables') :
    List.Forall₂ (fun item (t : String × String) => item.IsTableItem → SameTokens t.1 t.2) items
      ((tables.map String.ofList).zip (tables'.map String.ofList)) := by
  induction hitems generalizing tables tables' with
  | nil =>
    cases h
    exact .nil
  | cons hitem _ ih =>
    cases h with
    | cons hof h =>
      cases h' with
      | cons hof' h' => exact .cons (sameTokens_of_tableOf hitem hof hof') (ih h h')

/-! ## Queries -/

/-- The items of the FROM list of a text. -/
def sources (text : String) : List Run :=
  (Parts.ofRun? (Run.ofText text.toList)).elim [] fun s => Run.items s.sources

/-- The queries have the same shape, and the same tokens in every entry that is the text of whole
tokens.  The items are those of the FROM list of the first query. -/
structure SameShape (items : List Run) (q q' : Query) : Prop where
  distinct : q'.distinct = q.distinct
  columns : q'.columns.length = q.columns.length
  tables_length : q'.tables.length = q.tables.length
  /-- The tables of items that are a path and an optional alias. -/
  tables : List.Forall₂
    (fun item (t : String × String) => item.IsTableItem → SameTokens t.1 t.2) items
    (q.tables.zip q'.tables)
  conditions : List.Forall₂ SameTokens q.conditions q'.conditions
  joins : List.Forall₂ Join.SameTokens q.joins q'.joins
  groupBy : List.Forall₂ SameTokens q.groupBy q'.groupBy
  having : List.Forall₂ SameTokens q.having q'.having
  orderBy : q'.orderBy.length = q.orderBy.length

variable {cs cs' : List Char}

/-- The predicates of runs that differ in their layout have the same tokens. -/
theorem sameTokens_predicates {r r' : Run} (h : Relaid cs cs' r r') :
    List.Forall₂ SameTokens (predicates r) (predicates r') := by
  rw [predicates, predicates, h.isEmpty_eq]
  split
  · exact .nil
  · exact .cons h.sameTokens .nil

/-- The items of runs that differ in their layout have the same tokens. -/
theorem sameTokens_texts {r r' : Run} (h : Relaid cs cs' r r') :
    List.Forall₂ SameTokens ((Run.items r).map fun i => String.ofList (Run.text i))
      ((Run.items r').map fun i => String.ofList (Run.text i)) := by
  rw [List.forall₂_map_left_iff, List.forall₂_map_right_iff]
  exact h.items.imp fun _ _ hitem => hitem.sameTokens

/-- There are as many sort keys as items. -/
theorem length_sortKeys {r : Run} (h : r.Solid) :
    ((Run.items r).filterMap SortKey.ofItem?).length = (Run.items r).length := by
  rw [List.filterMap_length_eq_length]
  intro item hitem
  exact SortKey.ofItem?_isSome (h.item hitem) (Run.mem_items hitem).1

/-- Parts that only differ in their gaps are the same query but for the blanks in its entries. -/
theorem sameShape_of_relaid {s s' : Parts} (hdistinct : s'.distinct = s.distinct)
    (hselected : Relaid cs cs' s.selected s'.selected)
    (hsources : Relaid cs cs' s.sources s'.sources)
    (hclauses : Relaid cs cs' s.clauses s'.clauses) :
    Option.Rel (SameShape (Run.items s.sources)) (ofParts? s) (ofParts? s') := by
  have hcolumns : (columnsOf s'.selected).length = (columnsOf s.selected).length := by
    rw [length_columnsOf hselected.piece.solid, length_columnsOf hselected.piece'.solid,
      hselected.items.length_eq]
  have htables : (tableNames s'.clauses (Run.segments s'.sources)).length =
      (tableNames s.clauses (Run.segments s.sources)).length := by
    rw [length_tableNames_segments hsources.piece.solid,
      length_tableNames_segments hsources.piece'.solid, hsources.items.length_eq]
  have hordering := hclauses.body .ordering
  have hitems := forall₂_sameTokens_tables hsources.items
    (forall₂_tableNames s.clauses
      (fun _ ht => hsources.piece.of_infix (Run.infix_of_mem_segments ht))
      fun _ ht => (hsources.piece.of_infix (Run.infix_of_mem_segments ht)).solid)
    (forall₂_tableNames s'.clauses
      (fun _ ht => hsources.piece'.of_infix (Run.infix_of_mem_segments ht))
      fun _ ht => (hsources.piece'.of_infix (Run.infix_of_mem_segments ht)).solid)
  unfold ofParts?
  dsimp only
  rw [List.isEmpty_eq_of_length_eq hcolumns, List.isEmpty_eq_of_length_eq htables]
  split
  · exact .none
  · exact .some {
      distinct := hdistinct
      columns := by rw [List.length_map, List.length_map, hcolumns]
      tables_length := by rw [List.length_map, List.length_map, htables]
      tables := hitems
      conditions := sameTokens_predicates (hclauses.body .condition)
      joins := Join.sameTokens_of_relaid hclauses
      groupBy := sameTokens_texts (hclauses.body .grouping)
      having := sameTokens_predicates (hclauses.body .having)
      orderBy := by
        rw [length_sortKeys hordering.piece.solid, length_sortKeys hordering.piece'.solid,
          hordering.items.length_eq] }

/-- A query does not depend on layout.  When the first tokens of two texts are the word SELECT and
the texts have the same tokens once comments are taken out, then both are a query or both are
none.  The queries agree in DISTINCT, in the number of entries of every list and in the kinds of
their joins, and corresponding entries have the same tokens, apart from columns and sort keys, of
which only the number is told, and from tables of items that are not a path and an alias. -/
theorem ofText?_of_sameTokens {text text' : String} (h : StartsWithSelect text)
    (h' : StartsWithSelect text')
    (htokens : Token.ofText (Comment.strip text'.toList) =
      Token.ofText (Comment.strip text.toList)) :
    Option.Rel (SameShape (sources text)) (ofText? text) (ofText? text') := by
  have hparts := congrArg Parts.ofRun? (Run.map_bare_ofText htokens)
  rw [Parts.ofRun?_map Placed.faithful_bare, Parts.ofRun?_map Placed.faithful_bare] at hparts
  rw [ofText?_eq_ofRun? h, ofText?_eq_ofRun? h', ofRun?, ofRun?, sources]
  cases hs : Parts.ofRun? (Run.ofText text.toList) with
  | none =>
    rw [hs, Option.map_none, Option.map_eq_none_iff] at hparts
    rw [hparts]
    exact .none
  | some s =>
    rw [hs] at hparts
    rcases Option.map_eq_some_iff.1 hparts with ⟨s', hs', heq⟩
    obtain ⟨hdistinct, hselected, hsources, hclauses⟩ := Parts.mk.inj heq
    rcases Outline.exists_of_ofRun? hs with ⟨o, -, rfl⟩
    rcases Outline.exists_of_ofRun? hs' with ⟨o', -, rfl⟩
    rcases o.pieceOf with ⟨hpiece, hpieceFrom, hpieceBehind⟩
    rcases o'.pieceOf with ⟨hpiece', hpieceFrom', hpieceBehind'⟩
    rw [hs']
    exact sameShape_of_relaid hdistinct ⟨hpiece, hpiece', hselected⟩
      ⟨hpieceFrom, hpieceFrom', hsources⟩ ⟨hpieceBehind, hpieceBehind', hclauses⟩

/-- A statement on one line. -/
def compact : String :=
  "SELECT a.n, f(x) FROM s.t u LEFT JOIN w ON w.k=u.k WHERE u.c<='--' ORDER BY n"

/-- The same statement over several lines and with comments. -/
def spacious : String :=
  "\n SELECT a . n,f( x ) -- columns\n FROM s./**/t u LEFT/**/JOIN w ON w.k = u.k\n " ++
    "WHERE u.c <= '--' ORDER\tBY n"

/-- Line breaks and comments change the blanks in the entries and nothing else. -/
theorem ofText?_of_sameTokens_spacious :
    StartsWithSelect compact ∧ StartsWithSelect spacious ∧
      Token.ofText (Comment.strip spacious.toList) = Token.ofText (Comment.strip compact.toList) ∧
      ofText? spacious = some ⟨false, ["s. t"], ["n", "f( x )"], ["u.c <= '--'"],
        [⟨.left, "w", "w.k = u.k"⟩], [], [⟨"n", .ascending⟩], []⟩ ∧
      Option.Rel (SameShape (sources compact)) (ofText? compact) (ofText? spacious) := by
  have h := startsWithSelect_iff.2
    (by decide +kernel : (Lexeme.next? compact.toList).any (·.1.token.isKeyword "SELECT") = true)
  have h' := startsWithSelect_iff.2
    (by decide +kernel : (Lexeme.next? spacious.toList).any (·.1.token.isKeyword "SELECT") = true)
  have htokens : Token.ofText (Comment.strip spacious.toList) =
      Token.ofText (Comment.strip compact.toList) := by
    decide +kernel
  exact ⟨h, h', htokens, by decide +kernel, ofText?_of_sameTokens h h' htokens⟩

end Query

end SelectAlgebra
