import SelectAlgebra.Proofs.Query.Acceptance
import SelectAlgebra.Proofs.Query.JoinExchange

/-!
# Entries in turn

The entries of a query, its columns apart, are taken from a statement as they stand there.  Each
is all the text of a part of the statement or the first word of it, and the parts of the entries
of one list stand one behind the other.

Main results:

- Theorem `Run.InTurn.segments`: what is read from each part of a comma list stands in turn.
- Theorem `Join.inTurn_ofRun`: a join has its table in front of its condition and behind all joins
  before it.
- Theorem `Query.inTurn_ofParts?`: every list of a query stands in turn in the statement.
-/

namespace SelectAlgebra

/-- A text that starts with no blank starts with its first word. -/
theorem Text.prefix_of_head?_words {c : Char} {cs w : List Char} (hc : Text.isBlank c = false)
    (h : (Text.words (c :: cs)).head? = some w) : w <+: c :: cs := by
  obtain ⟨happ, hall, htail⟩ := List.takeWhile_dropWhile_iff.1
    (And.intro (rfl : (c :: cs).takeWhile (fun d => !Text.isBlank d) = _) rfl)
  have hne : (c :: cs).takeWhile (fun d => !Text.isBlank d) ≠ [] := by simp [hc]
  have hwords := Text.words_append hne (fun d hd => by simpa using hall d hd)
    fun d hd => by simpa using htail d hd
  rw [happ, hwords] at h
  obtain rfl := Option.some.inj h
  exact ⟨_, happ.symm⟩

namespace Run

/-! ## Entries of a part -/

/-- What a query takes from a part of a statement: all of its text, or the first word of it. -/
inductive EntryOf (part : Run) : String → Prop
  | whole : part ≠ [] → EntryOf part (String.ofList (text part))
  | firstWord {w : List Char} : (Text.words (text part)).head? = some w →
      EntryOf part (String.ofList w)

/-- A run with an entry has a token. -/
theorem EntryOf.ne_nil {part : Run} {entry : String} (h : EntryOf part entry) : part ≠ [] := by
  cases h with
  | whole hne => exact hne
  | firstWord hw =>
    rintro rfl
    cases hw

/-- An entry is the front of its part, and not empty. -/
theorem EntryOf.prefix_text {part : Run} {entry : String} (h : EntryOf part entry)
    (hs : part.Solid) : entry.toList <+: text part ∧ entry.toList ≠ [] := by
  rcases text_cons hs h.ne_nil with ⟨c, cs, htext, hc⟩
  cases h with
  | whole _ =>
    rw [String.toList_ofList]
    exact ⟨List.prefix_refl _, by simp [htext]⟩
  | @firstWord w hw =>
    rw [String.toList_ofList]
    refine ⟨?_, (Text.mem_words (List.mem_of_head? hw)).1⟩
    rw [htext] at hw ⊢
    exact Text.prefix_of_head?_words hc hw

/-! ## Entries in turn -/

/-- The entries stand in the run one behind the other, each in a part of its own. -/
inductive InTurn : Run → List String → Prop
  | nil (r : Run) : InTurn r []
  | cons (front : Run) {part rest : Run} {entry : String} {entries : List String} :
      EntryOf part entry → InTurn rest entries →
        InTurn (front ++ (part ++ rest)) (entry :: entries)

namespace InTurn

variable {r s : Run} {es fs : List String}

/-- A single entry is in turn. -/
theorem single {part : Run} {entry : String} (h : EntryOf part entry) : InTurn part [entry] := by
  have := cons [] h (nil [])
  rwa [List.nil_append, List.append_nil] at this

/-- Entries stay in turn when more stands in front of them. -/
theorem behind (front : Run) (h : InTurn r es) : InTurn (front ++ r) es := by
  cases h with
  | nil => exact nil _
  | cons skipped hentry h =>
    rw [← List.append_assoc]
    exact cons (front ++ skipped) hentry h

/-- Entries of two runs in a row are in turn. -/
theorem append (h : InTurn r es) (h' : InTurn s fs) : InTurn (r ++ s) (es ++ fs) := by
  induction h with
  | nil r => exact h'.behind r
  | cons front hentry _ ih =>
    rw [List.append_assoc, List.append_assoc]
    exact cons front hentry ih

/-- Entries that are in turn in a part of a run are so in the run. -/
theorem within (h : InTurn s es) (hs : s <:+: r) : InTurn r es := by
  rcases hs with ⟨front, back, rfl⟩
  have := (h.behind front).append (nil back)
  rwa [List.append_nil] at this

end InTurn

/-! ## Comma lists -/

/-- A comma list is one part, or a part, a comma and a comma list. -/
theorem segments_cases (r : Run) :
    segments r = [r] ∨ ∃ s comma rest, comma.isTop .comma = true ∧ r = s ++ comma :: rest ∧
      segments r = s :: segments rest := by
  cases hfind : r.find? fun p : Placed => p.isTop .comma with
  | none =>
    left
    rw [List.find?_eq_none] at hfind
    exact List.splitOnP_eq_singleton fun p hp => by simpa using hfind p hp
  | some comma =>
    right
    rcases List.find?_eq_some_iff_append.1 hfind with ⟨hcomma, s, rest, rfl, hs⟩
    refine ⟨s, comma, rest, hcomma, rfl, ?_⟩
    exact List.splitOnP_append_cons_of_forall_mem (fun p hp => by simpa using hs p hp) comma hcomma
      rest

/-- What holds of one part, and of a part and a comma in front of a comma list of which it holds,
holds of every comma list. -/
@[elab_as_elim]
theorem segmentsInduction {motive : Run → Prop} (one : ∀ s, segments s = [s] → motive s)
    (more : ∀ s comma rest, comma.isTop .comma = true →
      segments (s ++ comma :: rest) = s :: segments rest → motive rest →
        motive (s ++ comma :: rest)) (r : Run) : motive r := by
  induction hn : r.length using Nat.strongRecOn generalizing r with
  | ind n ih =>
    rcases segments_cases r with hone | ⟨s, comma, rest, hcomma, rfl, hmore⟩
    · exact one r hone
    · have hlength : rest.length < n := by
        rw [← hn, List.length_append, List.length_cons]
        omega
      exact more s comma rest hcomma hmore (ih rest.length hlength rest rfl)

/-- What is read from each part of a comma list stands in turn in the list. -/
theorem InTurn.segments {r : Run} {ess : List (List String)}
    (h : List.Forall₂ InTurn (Run.segments r) ess) : InTurn r ess.flatten := by
  induction r using segmentsInduction generalizing ess with
  | one s hone =>
    rw [hone] at h
    cases h with
    | cons hr hnil =>
      cases hnil
      rwa [List.flatten_cons, List.flatten_nil, List.append_nil]
  | more s comma rest _ hmore ih =>
    rw [hmore] at h
    cases h with
    | cons hs hrest => exact hs.append ((ih hrest).behind [comma])

/-- What is read from each item of a comma list stands in turn in the list. -/
theorem InTurn.items {r : Run} {f : Run → Option String}
    (h : ∀ s, ∀ entry ∈ f s, s ≠ [] → EntryOf s entry) : InTurn r ((Run.items r).filterMap f) := by
  have hsegments : (Run.items r).filterMap f =
      ((Run.segments r).map fun s => (if !s.isEmpty then f s else none).toList).flatten := by
    rw [Run.items, List.filterMap_filter, List.filterMap_eq_flatMap_toList, List.flatMap_def]
  rw [hsegments]
  apply InTurn.segments
  rw [List.forall₂_map_right_iff, List.forall₂_same]
  intro s _
  cases s with
  | nil => exact InTurn.nil []
  | cons p ps =>
    cases hf : f (p :: ps) with
    | none => exact InTurn.nil _
    | some entry => exact InTurn.single (h _ entry hf (List.cons_ne_nil p ps))

end Run

/-! ## Joins -/

namespace Join

open Run

/-- The entries of a join, in the order in which they are written. -/
def entries (j : Join) : List String :=
  [j.table, j.condition]

/-- A path has a token. -/
theorem namePath?_ne_nil {r path rest : Run} (h : namePath? r = some (path, rest)) :
    path ≠ [] := by
  unfold namePath? at h
  split at h
  · cases h
  · split at h
    · cases h
      exact List.cons_ne_nil _ _
    · cases h

/-- The condition of a join stands behind its table, whatever is read between them. -/
theorem inTurn_readCondition {path : Run} (kind : JoinKind) (r : Run) (hpath : path ≠ []) :
    ∃ front, r = front ++ (readCondition kind path r).2 ∧ ∀ between,
      InTurn (path ++ (between ++ front))
        ((readCondition kind path r).1.toList.flatMap entries) := by
  unfold readCondition
  split
  · rename_i hon
    cases r with
    | nil => cases hon
    | cons on r =>
      have happ := breakAt_append (Clause.opensAny (Clause.enders .join)) r
      dsimp only [List.tail_cons]
      split
      · exact ⟨on :: (breakAt (Clause.opensAny (Clause.enders .join)) r).1, by simp [happ],
          fun _ => .nil _⟩
      · rename_i hcondition
        refine ⟨on :: (breakAt (Clause.opensAny (Clause.enders .join)) r).1, by simp [happ], ?_⟩
        intro between
        have hentry : EntryOf (breakAt (Clause.opensAny (Clause.enders .join)) r).1 _ :=
          .whole (by simpa using hcondition)
        exact (InTurn.single (.whole hpath)).append
          (((InTurn.single hentry).behind [on]).behind between)
  · exact ⟨[], rfl, fun _ => .nil _⟩

/-- The body of a join has the table in front of the condition. -/
theorem inTurn_readBody (kind : JoinKind) (r : Run) :
    ∃ front, r = front ++ (readBody kind r).2 ∧
      InTurn front ((readBody kind r).1.toList.flatMap entries) := by
  cases h : namePath? r with
  | none =>
    rw [readBody_of_none h]
    exact ⟨[], rfl, .nil _⟩
  | some read =>
    rcases read with ⟨path, rest⟩
    rw [readBody_of_some h]
    rcases suffix_skipAlias rest with ⟨between, hbetween⟩
    rcases inTurn_readCondition kind (skipAlias rest) (namePath?_ne_nil h) with
      ⟨front, hfront, hturn⟩
    refine ⟨path ++ (between ++ front), ?_, hturn between⟩
    rw [List.append_assoc, List.append_assoc, ← hfront, hbetween, namePath?_append h]

/-- The tables and conditions of the joins of a run stand in turn. -/
theorem inTurn_ofRun (r : Run) : InTurn r ((ofRun r).flatMap entries) := by
  induction hn : r.length using Nat.strongRecOn generalizing r with
  | ind n ih =>
    cases r with
    | nil =>
      rw [ofRun_nil]
      exact .nil []
    | cons p ps =>
      cases hphrase : Clause.joinPhrase? (p :: ps) with
      | none =>
        rw [ofRun_eq_of_none hphrase]
        exact (ih ps.length (by rw [← hn, List.length_cons]; omega) ps rfl).behind [p]
      | some phrase =>
        rcases phrase with ⟨kind, body⟩
        rw [ofRun_eq_of_some hphrase, List.flatMap_append]
        have hlength : (readBody kind body).2.length < n := by
          rw [← hn]
          exact Nat.lt_of_le_of_lt (readBody_length kind body) (Clause.joinPhrase?_length hphrase)
        rcases Clause.suffix_joinPhrase? hphrase with ⟨words, hwords⟩
        rcases inTurn_readBody kind body with ⟨front, hfront, hturn⟩
        have hbody := hturn.append (ih _ hlength (readBody kind body).2 rfl)
        rw [← hfront] at hbody
        rw [← hwords]
        exact hbody.behind words

end Join

/-! ## Queries -/

namespace Query

open Run

/-- The first word of a run is in turn. -/
theorem inTurn_firstWord (part : Run) :
    InTurn part ((Text.words (text part)).head?.toList.map String.ofList) := by
  cases hw : (Text.words (text part)).head? with
  | none => exact .nil part
  | some w => exact .single (.firstWord hw)

/-- The table of an item of a FROM list stands in the item. -/
theorem inTurn_tableName? (item next : Run) :
    InTurn item ((tableName? item next).toList.map String.ofList) := by
  unfold tableName?
  split
  · rename_i path rest hpath
    split
    · exact inTurn_firstWord item
    · have hitem := namePath?_append hpath
      have hturn := (InTurn.single (.whole (Join.namePath?_ne_nil hpath))).append (.nil rest)
      rwa [hitem, List.append_nil] at hturn
  · exact inTurn_firstWord item

/-- The tables of a FROM list stand in turn in the list. -/
theorem inTurn_tableNames (next list : Run) :
    InTurn list ((tableNames next (segments list)).map String.ofList) := by
  have hparts : ∀ parts : List Run, ∃ ess, List.Forall₂ InTurn parts ess ∧
      (tableNames next parts).map String.ofList = ess.flatten := by
    intro parts
    induction parts with
    | nil => exact ⟨[], .nil, rfl⟩
    | cons item parts ih =>
      rcases ih with ⟨ess, hess, heq⟩
      refine ⟨_, .cons (inTurn_tableName? item (if parts.isEmpty then next else [])) hess, ?_⟩
      rw [tableNames_cons, List.map_append, heq, List.flatten_cons]
  rcases hparts (segments list) with ⟨ess, hess, heq⟩
  rw [heq]
  exact InTurn.segments hess

/-- The predicate of a clause is in turn. -/
theorem inTurn_predicates (r : Run) : InTurn r (predicates r) := by
  unfold predicates
  split
  · exact .nil r
  · rename_i hr
    exact .single (.whole (by simpa using hr))

/-- The items of a list are in turn. -/
theorem inTurn_texts (r : Run) :
    InTurn r ((items r).map fun i => String.ofList (text i)) := by
  rw [← List.filterMap_eq_map]
  apply InTurn.items
  rintro s entry ⟨⟩ hs
  exact .whole hs

/-- The columns of an ORDER BY list are in turn. -/
theorem inTurn_sortColumns (r : Run) :
    InTurn r (((items r).filterMap SortKey.ofItem?).map SortKey.column) := by
  rw [List.map_filterMap]
  apply InTurn.items
  intro s entry hentry _
  unfold SortKey.ofItem? at hentry
  split at hentry
  · cases hentry
  · rename_i column rest hwords
    obtain rfl := Option.some.inj hentry
    exact .firstWord (by rw [hwords]; rfl)

/-- The lists of entries that a query takes from the statement as they stand there, which are all
but the columns.  A join has two entries, its table and then its condition. -/
def verbatim (q : Query) : List (List String) :=
  [q.tables, q.joins.flatMap Join.entries, q.conditions, q.groupBy, q.having,
    q.orderBy.map SortKey.column]

/-- Every list of a query stands in turn in the FROM list and the clauses. -/
theorem inTurn_ofParts? {s : Parts} {q : Query} {entries : List String} (h : ofParts? s = some q)
    (hentries : entries ∈ q.verbatim) : InTurn (s.sources ++ s.clauses) entries := by
  have hsources : s.sources <:+: s.sources ++ s.clauses := (List.prefix_append _ _).isInfix
  have hbody := fun c : Clause => c.infix_body s.clauses
  unfold ofParts? at h
  dsimp only at h
  split at h
  · cases h
  · obtain rfl := Option.some.inj h
    simp only [verbatim, List.mem_cons, List.not_mem_nil, or_false] at hentries
    rcases hentries with rfl | rfl | rfl | rfl | rfl | rfl
    · exact (inTurn_tableNames _ _).within hsources
    · exact (Join.inTurn_ofRun _).behind _
    · exact ((inTurn_predicates _).within (hbody .condition)).behind _
    · exact ((inTurn_texts _).within (hbody .grouping)).behind _
    · exact ((inTurn_predicates _).within (hbody .having)).behind _
    · exact ((inTurn_sortColumns _).within (hbody .ordering)).behind _

end Query

end SelectAlgebra
