import SelectAlgebra.Proofs.Query.InTurn
import SelectAlgebra.Proofs.Token.Located

/-!
# Where entries come from

Every entry of a query but a column is a slice of the text without its comments that starts where
a token starts, and the slices of one list follow each other.  No entry has a blank at its ends,
unless it stops with a quoted run that nothing closes.

Main results:

- Theorem `Run.InTurn.slicesInOrder`: entries that stand in turn are slices in order.
- Theorem `Query.trimmed_text`: what tokens of a text say has no blank at its ends.
- Theorem `Query.ofText?_provenance`: where the entries of a query come from.
-/

namespace SelectAlgebra

/-! ## Slices in order -/

/-- A range of bytes. -/
structure Extent where
  start : Nat
  stop : Nat

/-- The range is not empty, starts where a token of the text starts, and holds the entry. -/
structure Extent.Holds (cs : List Char) (e : Extent) (entry : String) : Prop where
  start_lt_stop : e.start < e.stop
  slice : SliceAt cs e.start e.stop entry.toList
  token : ∃ t ∈ LocatedToken.ofText cs, t.start = e.start

/-- The entries are slices of the text that follow each other. -/
def SlicesInOrder (cs : List Char) (entries : List String) : Prop :=
  ∃ extents : List Extent, List.Forall₂ (Extent.Holds cs) extents entries ∧
    extents.Pairwise fun e f => e.stop ≤ f.start

/-- No slice is empty. -/
theorem SlicesInOrder.ne_empty {cs : List Char} {entries : List String}
    (h : SlicesInOrder cs entries) : ∀ entry ∈ entries, entry ≠ "" := by
  rcases h with ⟨extents, hall, -⟩
  induction hall with
  | nil => simp
  | cons hholds _ ih =>
    intro entry hentry
    rcases List.mem_cons.1 hentry with rfl | hentry
    · rintro rfl
      rcases hholds with ⟨hlt, ⟨before, after, -, -, hstop⟩, -⟩
      rw [String.toList_empty, byteLength_nil] at hstop
      omega
    · exact ih entry hentry

namespace Run

variable {cs : List Char} {front back : List Lexeme}

/-- A run covers the gap of its first lexeme and its text. -/
theorem sourceAll_map (p : Placed) (ps : Run) :
    Lexeme.sourceAll ((p :: ps).map Placed.toLexeme) = p.gap ++ text (p :: ps) := by
  rw [List.map_cons, Lexeme.sourceAll_cons, Lexeme.source, Lexeme.sourceAll, List.flatMap_map,
    text, List.append_assoc]

/-- The text of a run ends with its last token. -/
theorem suffix_text (ps : Run) (p : Placed) : p.token.text <:+ text (ps ++ [p]) := by
  cases ps with
  | nil => simp [text]
  | cons q qs =>
    refine ⟨q.token.text ++ qs.flatMap (fun x => x.source) ++ p.gap, ?_⟩
    simp [text, Lexeme.source]

/-- The entry of a part stands where the part stands. -/
theorem EntryOf.exists_extent {part : Run} {entry : String} (h : EntryOf part entry)
    (hs : part.Solid) (hcs : Lexeme.ofText cs = front ++ (part.map Placed.toLexeme ++ back)) :
    ∃ e : Extent, e.Holds cs entry ∧ byteLength (Lexeme.sourceAll front) ≤ e.start ∧
      e.stop ≤ byteLength (Lexeme.sourceAll (front ++ part.map Placed.toLexeme)) := by
  rcases h.prefix_text hs with ⟨⟨tail, htail⟩, hne⟩
  rcases List.exists_cons_of_ne_nil h.ne_nil with ⟨p, ps, rfl⟩
  rcases Lexeme.exists_blank_rest cs with ⟨blank, -, hsource⟩
  have hpos := byteLength_pos hne
  have hpart : Lexeme.sourceAll ((p :: ps).map Placed.toLexeme) =
      p.gap ++ (entry.toList ++ tail) := by
    rw [sourceAll_map, htail]
  have htoken : p.toLexeme.locate (0 + byteLength (Lexeme.sourceAll front)) ∈
      LocatedToken.ofText cs := by
    rw [LocatedToken.ofText, hcs]
    exact Lexeme.mem_locateAll 0 front _ p.toLexeme
  have hslice : SliceAt cs (byteLength (Lexeme.sourceAll front) + byteLength p.gap)
      (byteLength (Lexeme.sourceAll front) + byteLength p.gap + byteLength entry.toList)
      entry.toList := by
    refine ⟨Lexeme.sourceAll front ++ p.gap, tail ++ Lexeme.sourceAll back ++ blank, ?_,
      byteLength_append _ _, rfl⟩
    rw [hsource, hcs, Lexeme.sourceAll_append, Lexeme.sourceAll_append, hpart]
    simp only [List.append_assoc]
  rw [Nat.zero_add] at htoken
  refine ⟨⟨_, _⟩, ⟨Nat.lt_add_of_pos_right hpos, hslice, _, htoken, rfl⟩, Nat.le_add_right _ _, ?_⟩
  rw [Lexeme.sourceAll_append, hpart]
  simp only [byteLength_append]
  omega

/-- Entries that stand in turn in a run of lexemes are slices in order behind the lexemes in front
of the run. -/
theorem InTurn.exists_extents {r : Run} {entries : List String} (h : InTurn r entries)
    (hs : r.Solid) (hcs : Lexeme.ofText cs = front ++ (r.map Placed.toLexeme ++ back)) :
    ∃ extents : List Extent, List.Forall₂ (Extent.Holds cs) extents entries ∧
      (extents.Pairwise fun e f => e.stop ≤ f.start) ∧
      ∀ e ∈ extents, byteLength (Lexeme.sourceAll front) ≤ e.start := by
  induction h generalizing front with
  | nil r => exact ⟨[], .nil, .nil, by simp⟩
  | @cons skipped part rest entry entries hentry _ ih =>
    have hpart : Lexeme.ofText cs = (front ++ skipped.map Placed.toLexeme) ++
        (part.map Placed.toLexeme ++ (rest.map Placed.toLexeme ++ back)) := by
      rw [hcs]
      simp only [List.map_append, List.append_assoc]
    have hrest : Lexeme.ofText cs =
        (front ++ skipped.map Placed.toLexeme ++ part.map Placed.toLexeme) ++
          (rest.map Placed.toLexeme ++ back) := by
      rw [hpart]
      simp only [List.append_assoc]
    rcases hentry.exists_extent (hs.of_subset fun p hp => by simp [hp]) hpart with
      ⟨e, he, hstart, hstop⟩
    rcases ih (hs.of_subset fun p hp => by simp [hp]) hrest with ⟨extents, hall, hpairs, hbehind⟩
    rw [Lexeme.sourceAll_append, byteLength_append] at hstart
    refine ⟨e :: extents, .cons he hall, List.Pairwise.cons ?_ hpairs, ?_⟩
    · intro f hf
      exact Nat.le_trans hstop (hbehind f hf)
    · intro f hf
      rcases List.mem_cons.1 hf with rfl | hf
      · omega
      · have hlater := hbehind f hf
        rw [Lexeme.sourceAll_append, Lexeme.sourceAll_append, byteLength_append,
          byteLength_append] at hlater
        omega

/-- Entries that stand in turn in the first lexemes of a text are slices in order. -/
theorem InTurn.slicesInOrder {r : Run} {entries : List String} (h : InTurn r entries)
    (hs : r.Solid) (hcs : Lexeme.ofText cs = r.map Placed.toLexeme ++ back) :
    SlicesInOrder cs entries := by
  have hfront : Lexeme.ofText cs = [] ++ (r.map Placed.toLexeme ++ back) := hcs
  rcases h.exists_extents hs hfront with ⟨extents, hall, hpairs, -⟩
  exact ⟨extents, hall, hpairs⟩

end Run

/-! ## Ends of entries -/

/-- The text does not start with a blank, and it does not stop with one unless it stops with a
quoted run that nothing closes and that reaches to the end of the whole text `cs`. -/
def Trimmed (cs text : List Char) : Prop :=
  (∀ c ∈ text.head?, Text.isBlank c = false) ∧
    ((∀ c ∈ text.getLast?, Text.isBlank c = false) ∨
      ∃ l ∈ (Lexeme.ofText cs).getLast?, ¬ l.token.Terminated ∧ l.token.text <:+ cs ∧
        l.token.text <:+ text)

namespace Lexeme

/-- A token that is not closed is the last one and reaches to the end of the text. -/
theorem getLast?_of_not_terminated {cs : List Char} {l : Lexeme} (hl : l ∈ ofText cs)
    (h : ¬ l.token.Terminated) : (ofText cs).getLast? = some l ∧ l.token.text <:+ cs := by
  have hlast : (ofText cs).getLast? = some l := by
    by_contra hne
    exact h (terminated_of_mem_dropLast l
      (List.mem_dropLast_of_mem_of_ne_getLast? hl (Ne.symm hne)))
  refine ⟨hlast, ?_⟩
  rcases List.getLast?_eq_some_iff.1 hlast with ⟨front, hsplit⟩
  rcases Reads.of_ofText cs with ⟨blank, -, hreads⟩
  rw [hsplit] at hreads
  -- were there anything behind the token, the token would be closed
  have hend : blank = [] := by
    rcases hreads.split with ⟨mid, -, hread⟩
    cases hread with
    | next hnext hdone =>
      cases hdone
      by_contra hne
      exact h (terminated_of_next? hnext hne)
  have hsource := hreads.source
  rw [hend, List.append_nil, List.flatMap_append, List.flatMap_singleton, source] at hsource
  exact ⟨front.flatMap Lexeme.source ++ l.gap, by rw [← hsource, List.append_assoc]⟩

end Lexeme

/-- Every token of the run is a token of the text. -/
def Run.MadeOf (cs : List Char) (r : Run) : Prop :=
  ∀ p ∈ r, ∃ l ∈ Lexeme.ofText cs, l.token = p.token

namespace Run.MadeOf

variable {cs : List Char} {r s : Run}

/-- A run with tokens of another is made of the same text. -/
theorem of_tokens (h : r.MadeOf cs) (hs : ∀ p ∈ s, ∃ q ∈ r, q.token = p.token) : s.MadeOf cs := by
  intro p hp
  rcases hs p hp with ⟨q, hq, hqp⟩
  rcases h q hq with ⟨l, hl, hlq⟩
  exact ⟨l, hl, hlq.trans hqp⟩

/-- A part of a run is made of the same text. -/
theorem of_subset (h : r.MadeOf cs) (hs : ∀ p ∈ s, p ∈ r) : s.MadeOf cs :=
  fun p hp => h p (hs p hp)

/-- Tokens of a text start with characters that are no blanks. -/
theorem solid (h : r.MadeOf cs) : r.Solid := by
  intro p hp
  rcases h p hp with ⟨l, hl, hlp⟩
  rw [← hlp]
  exact Lexeme.Reads.forall_ofText Lexeme.text_of_next? cs l hl

end Run.MadeOf

namespace Query

/-- A text that holds no blank has none at its ends. -/
theorem trimmed_of_no_blank {cs text : List Char} (h : ∀ c ∈ text, Text.isBlank c = false) :
    Trimmed cs text :=
  ⟨fun c hc => h c (List.mem_of_head? hc), Or.inl fun c hc => h c (List.mem_of_getLast? hc)⟩

/-- What tokens of a text say has no blank at its ends, apart from what a quoted run ends with that
nothing closes. -/
theorem trimmed_text {cs : List Char} {r : Run} (h : r.MadeOf cs) : Trimmed cs (Run.text r) := by
  rcases List.eq_nil_or_concat r with rfl | ⟨ps, p, rfl⟩
  · exact trimmed_of_no_blank (by simp [Run.text])
  · rw [List.concat_eq_append] at h ⊢
    rcases Run.text_cons h.solid (by simp) with ⟨c, ds, htext, hc⟩
    rcases h p (by simp) with ⟨l, hl, hlp⟩
    have hsuffix := Run.suffix_text ps p
    rw [← hlp] at hsuffix
    constructor
    · rw [htext]
      rintro d ⟨⟩
      exact hc
    · by_cases hterm : l.token.Terminated
      · left
        rcases hsuffix with ⟨front, hfront⟩
        rw [← hfront, List.getLast?_append_of_ne_nil _ (Lexeme.text_ne_nil_of_mem_ofText l hl)]
        exact Lexeme.isBlank_of_getLast? l hl hterm
      · rcases Lexeme.getLast?_of_not_terminated hl hterm with ⟨hlast, hend⟩
        exact Or.inr ⟨l, hlast, hterm, hend, hsuffix⟩

/-- Entries that stand in turn in tokens of a text have no blank at their ends, apart from what a
quoted run ends with that nothing closes. -/
theorem trimmed_of_inTurn {cs : List Char} {r : Run} {entries : List String}
    (h : Run.InTurn r entries) (hr : r.MadeOf cs) :
    ∀ entry ∈ entries, Trimmed cs entry.toList := by
  induction h with
  | nil r => simp
  | @cons skipped part rest entry entries hentry _ ih =>
    intro e he
    rcases List.mem_cons.1 he with rfl | he
    · cases hentry with
      | whole _ =>
        rw [String.toList_ofList]
        exact trimmed_text (hr.of_subset fun p hp => by simp [hp])
      | firstWord hw =>
        rw [String.toList_ofList]
        exact trimmed_of_no_blank (Text.mem_words (List.mem_of_head? hw)).2
    · exact ih (hr.of_subset fun p hp => by simp [hp]) e he

/-- A column has no blank at its ends, apart from what a quoted run ends with that nothing
closes. -/
theorem trimmed_column {cs : List Char} {item : Run} (h : item.MadeOf cs) :
    Trimmed cs (SelectItem.column item) := by
  rw [SelectItem.column]
  exact trimmed_text (h.of_tokens SelectItem.exists_of_mem_columnRun)

/-! ## Queries -/

/-- Where the entries of a query come from, when `cs` is the text without its comments. -/
structure Provenance (cs : List Char) (q : Query) : Prop where
  /-- The entries of each list are slices that follow each other. -/
  in_order : ∀ entries ∈ q.verbatim, SlicesInOrder cs entries
  tables_ne_nil : q.tables ≠ []
  columns_ne_nil : q.columns ≠ []
  ne_empty : ∀ entry ∈ q.tables ++ q.columns, entry ≠ ""
  conditions_length_le : q.conditions.length ≤ 1
  having_length_le : q.having.length ≤ 1
  trimmed : ∀ entry ∈ q.columns ++ q.verbatim.flatten, Trimmed cs entry.toList

/-- A clause has one predicate at most. -/
theorem length_predicates_le (r : Run) : (predicates r).length ≤ 1 := by
  unfold predicates
  split
  · exact Nat.zero_le 1
  · exact Nat.le_refl 1

/-- How many entries the lists of a query have, and what its columns are read from. -/
theorem shape_of_ofParts? {s : Parts} {q : Query} (hs : s.selected.Solid)
    (h : ofParts? s = some q) :
    q.tables ≠ [] ∧ q.columns ≠ [] ∧ q.conditions.length ≤ 1 ∧ q.having.length ≤ 1 ∧
      q.columns = (Run.items s.selected).map fun i => String.ofList (SelectItem.column i) := by
  unfold ofParts? at h
  dsimp only at h
  split at h
  · cases h
  · rename_i hne
    rw [Bool.or_eq_true, not_or, List.isEmpty_iff, List.isEmpty_iff] at hne
    obtain rfl := Option.some.inj h
    refine ⟨by simpa using hne.2, by simpa using hne.1, length_predicates_le _,
      length_predicates_le _, ?_⟩
    rw [columnsOf_eq hs, List.map_map]
    rfl

/-- The lexemes of a statement are the first ones of its text without comments. -/
theorem exists_ofText_eq (cs : List Char) :
    ∃ back, Lexeme.ofText (Comment.strip cs) =
      (Run.ofText cs).map Placed.toLexeme ++ back := by
  rcases List.takeWhile_prefix (l := Run.place 0 (Lexeme.ofText (Comment.strip cs)))
    (fun p => !p.isTop .semicolon) with ⟨rest, hrest⟩
  refine ⟨rest.map Placed.toLexeme, ?_⟩
  rw [← Run.map_toLexeme_place 0 (Lexeme.ofText (Comment.strip cs)), ← hrest, List.map_append]
  rfl

/-- Where the entries of a query come from: its tables, join tables, join conditions, predicates,
group items and order columns are slices of the text without its comments that start where tokens
start and follow each other list by list, and no entry has a blank at its ends, apart from what a
quoted run ends with that nothing closes. -/
theorem ofText?_provenance {text : String} {q : Query} (h : ofText? text = some q) :
    Provenance (Comment.strip text.toList) q := by
  rcases exists_outline_of_ofText? h with ⟨-, o, ho⟩
  rcases exists_ofText_eq text.toList with ⟨back, hlexemes⟩
  have hmade : (Run.ofText text.toList).MadeOf (Comment.strip text.toList) := by
    intro p hp
    refine ⟨p.toLexeme, ?_, rfl⟩
    rw [hlexemes]
    exact List.mem_append_left _ (List.mem_map_of_mem hp)
  have hselected : o.parts.selected.MadeOf (Comment.strip text.toList) :=
    hmade.of_subset fun p hp => o.mem_run (Or.inl hp)
  have hturn : ∀ entries ∈ q.verbatim, Run.InTurn (Run.ofText text.toList) entries :=
    fun entries hentries => (inTurn_ofParts? ho hentries).within o.infix_behindFrom
  have horder : ∀ entries ∈ q.verbatim, SlicesInOrder (Comment.strip text.toList) entries :=
    fun entries hentries => (hturn entries hentries).slicesInOrder hmade.solid hlexemes
  rcases shape_of_ofParts? hselected.solid ho with
    ⟨htables, hcolumns, hconditions, hhaving, heq⟩
  refine ⟨horder, htables, hcolumns, ?_, hconditions, hhaving, ?_⟩
  · intro entry hentry
    rcases List.mem_append.1 hentry with hentry | hentry
    · exact (horder q.tables (by simp [verbatim])).ne_empty entry hentry
    · rw [heq] at hentry
      rcases List.mem_map.1 hentry with ⟨item, hitem, rfl⟩
      have hcolumn := SelectItem.column_ne_nil (hselected.solid.item hitem)
        (Run.mem_items hitem).1
      simpa using hcolumn
  · intro entry hentry
    rcases List.mem_append.1 hentry with hentry | hentry
    · rw [heq] at hentry
      rcases List.mem_map.1 hentry with ⟨item, hitem, rfl⟩
      rw [String.toList_ofList]
      exact trimmed_column (hselected.of_subset fun p hp => ((Run.mem_items hitem).2 p hp).1)
    · rcases List.mem_flatten.1 hentry with ⟨entries, hentries, hentry⟩
      exact trimmed_of_inTurn (hturn entries hentries) hmade entry hentry

/-- A query whose condition ends in a string that nothing closes. -/
def openString : String :=
  "SELECT t.a AS n, f( b ) FROM t, s.u v JOIN w ON w.k /* key */ = v.k WHERE c = 'x "

/-- The open string of a condition keeps the blank at its end. -/
theorem ofText?_provenance_openString :
    ofText? openString = some ⟨false, ["t", "s.u"], ["a", "f( b )"], ["c = 'x "],
        [⟨.inner, "w", "w.k   = v.k"⟩], [], [], []⟩ ∧
      Provenance (Comment.strip openString.toList) ⟨false, ["t", "s.u"], ["a", "f( b )"],
        ["c = 'x "], [⟨.inner, "w", "w.k   = v.k"⟩], [], [], []⟩ := by
  have hquery : ofText? openString = some ⟨false, ["t", "s.u"], ["a", "f( b )"], ["c = 'x "],
      [⟨.inner, "w", "w.k   = v.k"⟩], [], [], []⟩ := by
    decide +kernel
  exact ⟨hquery, ofText?_provenance hquery⟩

end Query

end SelectAlgebra
