import SelectAlgebra.Proofs.Checked.Tokens
import SelectAlgebra.Proofs.Query.Provenance
import SelectAlgebra.Proofs.Statement.Spans

/-!
# Statements with checked indices

A statement read with indices is the text without comments, the located tokens up to the first
semicolon outside parentheses, and their depths.  It shows a run when token and depth number `i`
are those of lexeme number `i`.  Then reading from index `i` on finds what reading the run without
its first `i` lexemes finds, and no index is out of range.

Main results:

- Theorem `find_eq`: a search finds where the run is broken.
- Theorem `Statement.exists_ofTokens_strip`: the statement of a text shows its run.
- Theorem `Statement.Shows.namePath?_eq`: a name path is read in steps that advance.
- Theorem `Statement.Shows.splitCommas_eq`: the ranges between commas are the items of the run.
- Theorem `Statement.Shows.textOf_eq`: the text of a range of tokens.
-/

namespace SelectAlgebra

/-! ## Places in a run -/

namespace Run

/-- The number of lexemes of the run in front of a run that ends it. -/
def placeOf (r s : Run) : Nat :=
  r.length - s.length

/-- What is left behind the first tokens stands behind them. -/
theorem placeOf_drop {r : Run} {i : Nat} (h : i ≤ r.length) : placeOf r (r.drop i) = i := by
  rw [placeOf, List.length_drop]
  omega

/-- No place is behind the end. -/
theorem placeOf_le (r s : Run) : placeOf r s ≤ r.length :=
  Nat.sub_le r.length s.length

/-- A run that ends another one stands at its place. -/
theorem drop_placeOf {r s : Run} (h : s <:+ r) : r.drop (placeOf r s) = s :=
  (List.suffix_iff_eq_drop.1 h).symm

/-- Behind a place, what is left stands behind what was read. -/
theorem placeOf_eq {r a s : Run} {start : Nat} (hstart : start ≤ r.length)
    (h : r.drop start = a ++ s) : placeOf r s = start + a.length := by
  have hlength := congrArg List.length h
  rw [List.length_drop, List.length_append] at hlength
  rw [placeOf]
  omega

/-- What follows a part of a run is found behind the part. -/
theorem drop_add {r a s : Run} {start : Nat} (h : r.drop start = a ++ s) :
    r.drop (start + a.length) = s := by
  rw [← List.drop_drop, h, List.drop_left]

/-- A place with a token is in front of the end. -/
theorem lt_length_of_drop {r s : Run} {p : Placed} {i : Nat} (h : r.drop i = p :: s) :
    i < r.length := by
  by_contra hge
  rw [List.drop_eq_nil_of_le (Nat.not_lt.1 hge)] at h
  cases h

end Run

/-- The index of the first lexeme of a span and the index behind its last one. -/
def Span.ends (s : Span) : Nat × Nat :=
  (s.start, s.stop)

namespace Checked

/-! ## Tests and searches -/

/-- The second test is made only if the first one holds. -/
def both (first second : Access Bool) : Access Bool := do
  if ← first then second else .ok false

/-- The first index of a range that passes the test. -/
def find (start stop : Nat) (test : Nat → Access Bool) : Access (Option Nat) :=
  (List.range' start (stop - start)).findM? test

/-- The first index of a range that passes the test, or else the end of the range. -/
def findOrEnd (start stop : Nat) (test : Nat → Access Bool) : Access Nat := do
  let found ← find start stop test
  .ok (found.getD stop)

@[simp]
theorem both_ok (a b : Bool) : both (.ok a) (.ok b) = .ok (a && b) := by
  cases a <;> rfl

section Search

variable {r : Run} {p : Run → Bool} {test : Nat → Access Bool} {start : Nat}

/-- A search finds where the run is broken. -/
theorem find_eq (h : ∀ i < r.length, test i = .ok (p (r.drop i))) (hstart : start ≤ r.length) :
    find start r.length test =
      .ok (if (Run.breakAt p (r.drop start)).2 = [] then none
        else some (Run.placeOf r (Run.breakAt p (r.drop start)).2)) := by
  rw [find]
  induction hn : r.length - start generalizing start with
  | zero =>
    rw [List.drop_eq_nil_of_le (by omega)]
    rfl
  | succ n ih =>
    have hlt : start < r.length := by omega
    have hdrop := List.drop_eq_getElem_cons hlt
    have htest := h start hlt
    have hplace := Run.placeOf_drop hstart
    rw [hdrop] at htest hplace
    rw [List.range'_succ, List.findM?, htest, hdrop, Run.breakAt]
    cases hp : p (r[start] :: r.drop (start + 1)) with
    | true =>
      simp only [if_true, hplace]
      rfl
    | false => exact ih (by omega) (by omega)

/-- The search finds the place at which the run is broken. -/
theorem findOrEnd_eq (h : ∀ i < r.length, test i = .ok (p (r.drop i)))
    (hstart : start ≤ r.length) :
    findOrEnd start r.length test = .ok (Run.placeOf r (Run.breakAt p (r.drop start)).2) := by
  rw [findOrEnd, find_eq h hstart, ok_bind]
  by_cases hnil : (Run.breakAt p (r.drop start)).2 = []
  · rw [if_pos hnil, hnil]
    rfl
  · rw [if_neg hnil]
    rfl

end Search

/-! ## Statements -/

/-- The depths of the tokens behind `depth` open parentheses. -/
def depthsFrom (depth : Nat) : List LocatedToken → List Nat
  | [] => []
  | t :: ts =>
    match t.token.kind with
    | .leftParen => depth :: depthsFrom (depth + 1) ts
    | .rightParen => (depth - 1) :: depthsFrom (depth - 1) ts
    | _ => depth :: depthsFrom depth ts

/-- A statement that is read with indices: its text, and its tokens with their depths. -/
structure Statement where
  source : List Char
  tokens : List LocatedToken
  depths : List Nat

namespace Statement

variable (st : Statement)

/-- The token at the index is of the kind, outside parentheses. -/
def topAt (kind : TokenKind) (i : Nat) : Access Bool := do
  let depth ← get st.depths i
  if depth = 0 then
    let t ← get st.tokens i
    .ok (t.token.kind == kind)
  else .ok false

/-- The statement up to the first semicolon outside parentheses. -/
def ofTokens (source : List Char) (tokens : List LocatedToken) : Access Statement := do
  let all : Statement := ⟨source, tokens, depthsFrom 0 tokens⟩
  let stop ← findOrEnd 0 tokens.length (all.topAt .semicolon)
  let tokens ← range tokens 0 stop
  .ok ⟨source, tokens, all.depths.take stop⟩

/-- The keyword stands at the index, outside parentheses.  There is none past the end. -/
def keywordAt (i : Nat) (word : String) : Access Bool :=
  if i < st.tokens.length then do
    let depth ← get st.depths i
    if depth = 0 then
      let t ← get st.tokens i
      .ok (t.token.isKeyword word)
    else .ok false
  else .ok false

/-- A name stands at the index.  There is none past the end. -/
def nameAt (i : Nat) : Bool :=
  st.tokens[i]?.any (·.token.isName)

/-- One step behind a name: a dot and a name. -/
def pathStep (i : Nat) (_ : Unit) : Access (Option (Nat × Unit)) :=
  if i + 1 < st.tokens.length then do
    let dot ← get st.tokens i
    if dot.token.kind = .dot then
      let name ← get st.tokens (i + 1)
      .ok (if name.token.isName then some (i + 2, ()) else none)
    else .ok none
  else .ok none

/-- The index behind the name path that starts at the index. -/
def namePath? (i : Nat) : Access (Option Nat) :=
  if st.nameAt i then do
    let stop ← loop st.tokens.length st.pathStep (i + 1) ()
    .ok (some stop.1)
  else .ok none

/-- One step between commas: at a comma the range that has started ends, and one starts behind. -/
def commaStep (done : List (Nat × Nat) × Nat) (i : Nat) :
    Access (List (Nat × Nat) × Nat) := do
  if ← st.topAt .comma i then .ok (done.1 ++ [(done.2, i)], i + 1) else .ok done

/-- The ranges between the commas outside parentheses, without the empty ones. -/
def splitCommas (start stop : Nat) : Access (List (Nat × Nat)) := do
  let split ← (List.range' start (stop - start)).foldlM st.commaStep ([], start)
  .ok ((split.1 ++ [(split.2, stop)]).filter fun item => item.1 < item.2)

/-- The text from the start of the first token of the range to the end of the last. -/
def textOf (start stop : Nat) : Access (List Char) :=
  if stop ≤ start then .ok []
  else do
    let first ← get st.tokens start
    let index ← sub stop 1
    let last ← get st.tokens index
    slice st.source first.start last.stop

end Statement

/-! ## What a statement shows -/

/-- The tokens and depths of the statement are those of the run, and its text starts with what the
run covers. -/
structure Statement.Shows (st : Statement) (r : Run) : Prop where
  tokens : st.tokens = Lexeme.locateAll 0 (r.map Placed.toLexeme)
  depths : st.depths = r.map (·.depth)
  source : ∃ rest, st.source = Lexeme.sourceAll (r.map Placed.toLexeme) ++ rest
  solid : r.Solid

/-- The byte at which the lexeme at an index starts, its gap included. -/
def offset (r : Run) (i : Nat) : Nat :=
  byteLength (Lexeme.sourceAll ((r.take i).map Placed.toLexeme))

/-- The offsets of tokens add up. -/
theorem offset_add {r piece rest : Run} {i : Nat} (h : r.drop i = piece ++ rest) :
    offset r (i + piece.length) =
      offset r i + byteLength (Lexeme.sourceAll (piece.map Placed.toLexeme)) := by
  have htake : r.take (i + piece.length) = r.take i ++ piece := by
    rw [List.take_add, h, List.take_left]
  rw [offset, htake, List.map_append, Lexeme.sourceAll_append, byteLength_append, offset]

/-- The last token of a piece stops where the piece does. -/
theorem stop_locate (init : Run) {r rest : Run} {q : Placed} {i : Nat}
    (h : r.drop i = init ++ q :: rest) :
    (q.toLexeme.locate (offset r (i + init.length))).stop = offset r (i + (init.length + 1)) := by
  have hwhole : r.drop i = (init ++ [q]) ++ rest := by
    rw [h, List.append_assoc]
    rfl
  have hoffset := offset_add hwhole
  rw [List.length_append, List.length_singleton] at hoffset
  rw [hoffset, offset_add h, List.map_append, Lexeme.sourceAll_append, byteLength_append]
  simp [Lexeme.locate, Lexeme.source, Lexeme.sourceAll, Nat.add_assoc]

namespace Statement.Shows

variable {st : Statement} {r rest : Run} {p : Placed} {i : Nat}

section

variable (h : st.Shows r)

include h

theorem length_tokens : st.tokens.length = r.length := by
  rw [h.tokens, Lexeme.length_locateAll, List.length_map]

/-- The depth of a token is that in the run. -/
theorem get_depths (hi : r.drop i = p :: rest) : get st.depths i = .ok p.depth := by
  apply get_eq_ok
  rw [h.depths, List.getElem?_map, ← List.head?_drop, hi]
  rfl

/-- Token number `i` is lexeme number `i`, located behind all that stands in front of it. -/
theorem getElem?_tokens (i : Nat) :
    st.tokens[i]? = (r.drop i).head?.map fun p => p.toLexeme.locate (offset r i) := by
  have hsplit : r.map Placed.toLexeme =
      (r.take i).map Placed.toLexeme ++ (r.drop i).map Placed.toLexeme := by
    rw [← List.map_append, List.take_append_drop]
  cases hi : r.drop i with
  | nil =>
    rw [List.getElem?_eq_none]
    · rfl
    · rw [h.length_tokens]
      exact List.drop_eq_nil_iff.1 hi
  | cons p rest =>
    have hlength : ((r.take i).map Placed.toLexeme).length = i := by
      rw [List.length_map, List.length_take]
      have := Run.lt_length_of_drop hi
      omega
    rw [h.tokens, hsplit, Lexeme.locateAll_append, List.getElem?_append_right,
      Lexeme.length_locateAll, hlength, Nat.sub_self, hi, List.map_cons, Lexeme.locateAll_cons,
      Nat.zero_add]
    · rfl
    · rw [Lexeme.length_locateAll, hlength]

/-- A token at its offset is that of the run. -/
theorem get_tokens (hi : r.drop i = p :: rest) :
    get st.tokens i = .ok (p.toLexeme.locate (offset r i)) := by
  apply get_eq_ok
  rw [h.getElem?_tokens, hi]
  rfl

/-! ## Tests at an index -/

theorem topAt_eq (kind : TokenKind) (hi : r.drop i = p :: rest) :
    st.topAt kind i = .ok (p.isTop kind) := by
  rw [topAt, h.get_depths hi, ok_bind, h.get_tokens hi, ok_bind, Placed.isTop]
  by_cases hdepth : p.depth = 0
  · rw [if_pos hdepth, hdepth]
    rfl
  · rw [if_neg hdepth, beq_eq_false_iff_ne.2 hdepth, Bool.false_and]

/-- A keyword is found at an index exactly where the run starts with it. -/
theorem keywordAt_eq (i : Nat) (word : String) :
    st.keywordAt i word = .ok (Run.startsWith word (r.drop i)) := by
  rw [keywordAt, h.length_tokens]
  cases hi : r.drop i with
  | nil =>
    have hge : ¬ i < r.length := by
      have := congrArg List.length hi
      rw [List.length_drop, List.length_nil] at this
      omega
    rw [if_neg hge]
    rfl
  | cons p rest =>
    rw [if_pos (Run.lt_length_of_drop hi), h.get_depths hi, ok_bind, h.get_tokens hi, ok_bind,
      Run.startsWith_cons, Placed.isTopKeyword]
    by_cases hdepth : p.depth = 0
    · rw [if_pos hdepth, hdepth]
      rfl
    · rw [if_neg hdepth, beq_eq_false_iff_ne.2 hdepth, Bool.false_and]

/-- A name is found where the run has one. -/
theorem nameAt_eq (i : Nat) : st.nameAt i = (r.drop i).head?.any (·.token.isName) := by
  rw [nameAt, h.getElem?_tokens, Option.any_map]
  rfl

/-! ## Name paths -/

/-- A step is made where a dot and a name follow. -/
theorem pathStep_cons_cons {d : Placed} (hi : r.drop i = d :: p :: rest) :
    st.pathStep i () =
      .ok (if d.token.kind = .dot ∧ p.token.isName = true then some (i + 2, ()) else none) := by
  have hnext : r.drop (i + 1) = p :: rest := Run.drop_add (a := [d]) hi
  rw [pathStep, h.length_tokens, if_pos (Run.lt_length_of_drop hnext), h.get_tokens hi, ok_bind,
    h.get_tokens hnext, ok_bind, Lexeme.token_locate, Lexeme.token_locate]
  by_cases hdot : d.token.kind = .dot
  · simp only [hdot, if_true, true_and]
  · rw [if_neg hdot, if_neg (fun hboth => hdot hboth.1)]

/-- The steps behind a name advance until no dot and name follow. -/
theorem loop_pathStep (hi : i ≤ r.length) :
    loop st.tokens.length st.pathStep i () =
      .ok (Run.placeOf r (Run.namePath?.steps (r.drop i)).2, ()) := by
  have hlength := h.length_tokens
  have hplace := Run.placeOf_drop hi
  generalize hs : r.drop i = s at hplace ⊢
  fun_induction Run.namePath?.steps s generalizing i with
  | case1 d p s hstep ih =>
    have hnext : r.drop (i + 2) = s := Run.drop_add (a := [d, p]) hs
    have hlt : i + 1 < r.length := Run.lt_length_of_drop (Run.drop_add (a := [d]) hs)
    have hplaceNext : Run.placeOf r s = i + 2 := by
      rw [← hnext]
      exact Run.placeOf_drop hlt
    have hgo : st.pathStep i () = .ok (some (i + 2, ())) := by
      rw [h.pathStep_cons_cons hs, if_pos hstep]
    rw [loop_next (by omega) hgo (by omega)]
    exact ih hlt hnext hplaceNext
  | case2 d p s hstop =>
    rw [loop_break (hlength ▸ Run.lt_length_of_drop hs), hplace]
    rw [h.pathStep_cons_cons hs, if_neg hstop]
  | case3 s hshort =>
    have hend : ¬ i + 1 < st.tokens.length := by
      intro hlt
      rw [hlength] at hlt
      have hfirst := List.drop_eq_getElem_cons (Nat.lt_of_succ_lt hlt)
      rw [List.drop_eq_getElem_cons hlt, hs] at hfirst
      exact hshort _ _ _ hfirst
    by_cases hlt : i < st.tokens.length
    · rw [loop_break hlt, hplace]
      rw [pathStep, if_neg hend]
    · rw [loop_done (Nat.not_lt.1 hlt), hplace]

/-- A name path is read at an index as it is read of the run. -/
theorem namePath?_eq (i : Nat) :
    st.namePath? i = .ok ((Run.namePath? (r.drop i)).map fun read => Run.placeOf r read.2) := by
  rw [namePath?, h.nameAt_eq]
  cases hs : r.drop i with
  | nil => rfl
  | cons p s =>
    have hnext : r.drop (i + 1) = s := Run.drop_add (a := [p]) hs
    have hlt := Run.lt_length_of_drop hs
    rw [Run.namePath?, h.loop_pathStep hlt, hnext, ok_bind, List.head?_cons, Option.any_some]
    by_cases hname : p.token.isName = true
    · rw [if_pos hname, if_pos hname]
      rfl
    · rw [if_neg hname, if_neg hname]
      rfl

/-! ## Comma lists -/

/-- The ranges of the fold over a piece: the first one has started before the piece. -/
theorem foldlM_commas {piece part : Run} {parts : List Run} (hi : r.drop i = piece ++ rest)
    (hparts : Run.segments piece = part :: parts) (items : List (Nat × Nat)) (start : Nat) :
    ∃ split, (List.range' i piece.length).foldlM st.commaStep (items, start) = .ok split ∧
      split.1 ++ [(split.2, i + piece.length)] =
        items ++ (start, i + part.length) ::
          (Span.ofParts (i + part.length + 1) parts).map Span.ends := by
  induction piece generalizing i items start part parts with
  | nil =>
    obtain ⟨rfl, rfl⟩ := List.cons.inj (hparts : [[]] = part :: parts)
    exact ⟨(items, start), rfl, rfl⟩
  | cons p piece ih =>
    have hnext : r.drop (i + 1) = piece ++ rest := Run.drop_add (a := [p]) hi
    rcases List.exists_cons_of_ne_nil (Run.segments_ne_nil piece) with ⟨first, others, hrest⟩
    rw [Run.segments, List.splitOnP_cons_eq_if_modifyHead, ← Run.segments, hrest] at hparts
    rw [List.length_cons, List.range'_succ, List.foldlM_cons, commaStep, h.topAt_eq .comma hi,
      ok_bind]
    cases hcomma : p.isTop .comma with
    | true =>
      rw [hcomma, if_pos rfl] at hparts
      obtain ⟨rfl, rfl⟩ := List.cons.inj hparts
      rcases ih hnext hrest (items ++ [(start, i)]) (i + 1) with ⟨split, hfold, hsplit⟩
      refine ⟨split, hfold, ?_⟩
      rw [← Nat.add_assoc, Nat.add_right_comm, hsplit, List.append_assoc]
      simp [Span.ofParts, Span.ends, Span.stop]
    | false =>
      rw [hcomma, if_neg (by simp), List.modifyHead_cons] at hparts
      obtain ⟨rfl, rfl⟩ := List.cons.inj hparts
      rcases ih hnext hrest items start with ⟨split, hfold, hsplit⟩
      refine ⟨split, hfold, ?_⟩
      rw [← Nat.add_assoc, Nat.add_right_comm, hsplit, List.length_cons, Nat.add_assoc i 1,
        Nat.add_comm 1]

/-- The ranges between commas are the items of the run. -/
theorem splitCommas_eq {piece : Run} (hi : r.drop i = piece ++ rest) :
    st.splitCommas i (i + piece.length) =
      .ok ((Span.items ⟨i, piece⟩).map Span.ends) := by
  rcases List.exists_cons_of_ne_nil (Run.segments_ne_nil piece) with ⟨part, parts, hparts⟩
  rcases h.foldlM_commas hi hparts [] i with ⟨split, hfold, hsplit⟩
  have hranges : (i, i + part.length) ::
      (Span.ofParts (i + part.length + 1) parts).map Span.ends =
        (Span.segments ⟨i, piece⟩).map Span.ends := by
    rw [Span.segments, hparts]
    rfl
  rw [splitCommas, Nat.add_sub_cancel_left, hfold, ok_bind, hsplit, List.nil_append, hranges,
    List.filter_map, Span.items]
  congr 3
  funext t
  cases hrun : t.run <;> simp [Span.ends, Span.stop, hrun]

/-! ## Texts of ranges -/

/-- The text of a range of tokens is the text of the run. -/
theorem textOf_eq {piece : Run} (hi : r.drop i = piece ++ rest) :
    st.textOf i (i + piece.length) = .ok (Run.text piece) := by
  cases piece with
  | nil =>
    rw [textOf, List.length_nil, Nat.add_zero, if_pos (Nat.le_refl i)]
    rfl
  | cons p ps =>
    obtain ⟨init, q, hlast⟩ : ∃ init q, p :: ps = init ++ [q] :=
      ⟨_, _, (List.dropLast_append_getLast (List.cons_ne_nil p ps)).symm⟩
    have hinit : r.drop i = init ++ q :: rest := by
      rw [hi, hlast, List.append_assoc]
      rfl
    have hlength : i + (p :: ps).length = i + init.length + 1 := by
      rw [hlast, List.length_append]
      rfl
    have hrun : r.map Placed.toLexeme = (r.take i).map Placed.toLexeme ++
        ((p :: ps).map Placed.toLexeme ++ rest.map Placed.toLexeme) := by
      rw [← List.map_append, ← hi, ← List.map_append, List.take_append_drop]
    rcases h.source with ⟨tail, hsource⟩
    rw [textOf, if_neg (by simp), h.get_tokens hi, ok_bind, hlength, sub_add_right, ok_bind,
      h.get_tokens (Run.drop_add hinit), ok_bind, slice_eq_ok_iff]
    refine ⟨Lexeme.sourceAll ((r.take i).map Placed.toLexeme) ++ p.gap,
      Lexeme.sourceAll (rest.map Placed.toLexeme) ++ tail, ?_, byteLength_append _ _, ?_⟩
    · rw [hsource, hrun, Lexeme.sourceAll_append, Lexeme.sourceAll_append, Run.sourceAll_map]
      simp only [List.append_assoc]
    · rw [stop_locate init hinit, ← Nat.add_assoc, ← hlength, offset_add hi, Run.sourceAll_map,
        byteLength_append, ← Nat.add_assoc]
      rfl

end

/-! ## The statement of a text -/

/-- The depths of located tokens are those at which their lexemes are placed. -/
theorem depthsFrom_locateAll (n depth : Nat) (ls : List Lexeme) :
    depthsFrom depth (Lexeme.locateAll n ls) = (Run.place depth ls).map (·.depth) := by
  induction ls generalizing n depth with
  | nil => rfl
  | cons l ls ih =>
    rw [Lexeme.locateAll_cons, depthsFrom, Run.place, Lexeme.token_locate]
    cases l.token.kind <;> simp [ih]

/-- A run that starts a longer one is shown by the first tokens of its statement. -/
theorem take {front back : Run} {source : List Char} {tokens : List LocatedToken}
    {depths : List Nat} (h : Shows ⟨source, tokens, depths⟩ (front ++ back)) :
    Shows ⟨source, tokens.take front.length, depths.take front.length⟩ front where
  tokens := by
    have := h.tokens
    dsimp only at this ⊢
    rw [this, List.map_append, Lexeme.locateAll_append, List.take_left']
    rw [Lexeme.length_locateAll, List.length_map]
  depths := by
    have := h.depths
    dsimp only at this ⊢
    rw [this, List.map_append, List.take_left']
    rw [List.length_map]
  source := by
    rcases h.source with ⟨tail, hsource⟩
    refine ⟨Lexeme.sourceAll (back.map Placed.toLexeme) ++ tail, ?_⟩
    rw [hsource, List.map_append, Lexeme.sourceAll_append, List.append_assoc]
  solid := h.solid.of_subset fun _ hp => List.mem_append_left back hp

end Statement.Shows

namespace Statement

/-- A semicolon outside parentheses stands at the start of the run. -/
def startsWithSemicolon (r : Run) : Bool :=
  r.head?.any (·.isTop .semicolon)

/-- Tokens that show a run are cut off at its first semicolon. -/
theorem exists_ofTokens {source : List Char} {tokens : List LocatedToken} {r : Run}
    (h : Shows ⟨source, tokens, depthsFrom 0 tokens⟩ r) :
    ∃ st, ofTokens source tokens = .ok st ∧
      st.Shows (r.takeWhile fun p => !p.isTop .semicolon) := by
  have hlength : tokens.length = r.length := h.length_tokens
  have htest : ∀ i < r.length, topAt ⟨source, tokens, depthsFrom 0 tokens⟩ .semicolon i =
      .ok (startsWithSemicolon (r.drop i)) := by
    intro i hi
    rw [List.drop_eq_getElem_cons hi]
    exact h.topAt_eq .semicolon (List.drop_eq_getElem_cons hi)
  have hsplit := Run.breakAt_append startsWithSemicolon r
  have hstop : Run.placeOf r (Run.breakAt startsWithSemicolon r).2 =
      (Run.breakAt startsWithSemicolon r).1.length := by
    rw [Run.placeOf_eq (Nat.zero_le r.length) (hsplit.symm : r.drop 0 = _), Nat.zero_add]
  have hle : (Run.breakAt startsWithSemicolon r).1.length ≤ tokens.length := by
    rw [hlength, ← hstop]
    exact Run.placeOf_le _ _
  have hfront : (Run.breakAt startsWithSemicolon r).1 = r.takeWhile fun p => !p.isTop .semicolon :=
    congrArg Prod.fst (Run.breakAt_head? (·.isTop .semicolon) r)
  rw [← hfront]
  refine ⟨_, ?_, Shows.take (hsplit.symm ▸ h)⟩
  rw [ofTokens]
  dsimp only
  rw [hlength, findOrEnd_eq htest (Nat.zero_le _), List.drop_zero, hstop, ok_bind,
    range_eq_ok (Nat.zero_le _) hle]
  rfl

/-- All tokens of a text with their depths show the lexemes of the text where they are placed. -/
theorem shows_all (cs : List Char) :
    Shows ⟨cs, LocatedToken.ofText cs, depthsFrom 0 (LocatedToken.ofText cs)⟩
      (Run.place 0 (Lexeme.ofText cs)) where
  tokens := by
    rw [Run.map_toLexeme_place]
    rfl
  depths := Shows.depthsFrom_locateAll 0 0 (Lexeme.ofText cs)
  source := by
    rcases Lexeme.exists_blank_rest cs with ⟨blank, -, hsource⟩
    refine ⟨blank, ?_⟩
    rw [Run.map_toLexeme_place]
    exact hsource
  solid := by
    intro p hp
    exact Lexeme.Reads.forall_ofText Lexeme.text_of_next? cs p.toLexeme
      (Run.mem_toLexeme_of_place hp)

/-- The statement of a text shows its run. -/
theorem exists_ofTokens_strip (cs : List Char) :
    ∃ st, ofTokens (Comment.strip cs) (LocatedToken.ofText (Comment.strip cs)) = .ok st ∧
      st.Shows (Run.ofText cs) :=
  exists_ofTokens (shows_all (Comment.strip cs))

end Statement

end Checked

end SelectAlgebra
