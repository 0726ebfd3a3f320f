import SelectAlgebra.Proofs.Checked.Entries
import SelectAlgebra.Proofs.Query.JoinExchange

/-!
# Clauses and joins with checked indices

A clause opens at an index where its keywords stand at the index and behind it, and holds a range
of tokens.  Joins are read in a loop: every step goes on behind the index it has looked at, also
when what follows a join phrase is not complete.

Main results:

- Theorem `Statement.Shows.joinAt_eq`: a join phrase is read at an index.
- Theorem `Statement.Shows.clauseRange_eq`: the range of tokens that a clause holds.
- Theorem `Statement.Shows.joins_eq`: the joins of a statement are read in steps that advance.
-/

namespace SelectAlgebra.Checked

/-! ## Tests that do not fail -/

/-- A search among tests that do not fail does not fail. -/
theorem anyM_ok {α : Type} {test : α → Access Bool} {p : α → Bool}
    (h : ∀ x, test x = .ok (p x)) (xs : List α) : xs.anyM test = .ok (xs.any p) := by
  induction xs with
  | nil => rfl
  | cons x xs ih =>
    rw [List.anyM, h, ok_bind, List.any_cons, ih]
    cases p x <;> rfl

/-- The first of the elements that pass is found when no test fails. -/
theorem findM?_ok {α : Type} {test : α → Access Bool} {p : α → Bool}
    (h : ∀ x, test x = .ok (p x)) (xs : List α) : xs.findM? test = .ok (xs.find? p) := by
  induction xs with
  | nil => rfl
  | cons x xs ih =>
    rw [List.findM?, h, ok_bind, List.find?_cons, ih]
    cases p x <;> rfl

namespace Statement

variable (st : Statement)

/-! ## Phrases at an index -/

/-- The two keywords stand at the index and behind it. -/
def pairAt (i : Nat) (first second : String) : Access Bool :=
  both (st.keywordAt i first) (st.keywordAt (i + 1) second)

/-- The index behind the keyword, if it stands at the index. -/
def skipKeyword (i : Nat) (word : String) : Access Nat := do
  if ← st.keywordAt i word then .ok (i + 1) else .ok i

/-- The index behind the optional OUTER of a join of the kind. -/
def skipOuter (kind : JoinKind) (i : Nat) : Access Nat :=
  if kind = .inner then .ok i else st.skipKeyword i "OUTER"

/-- The kind of the join whose phrase stands at the index, and the index behind the phrase. -/
def joinAt (i : Nat) : Access (Option (JoinKind × Nat)) := do
  if ← st.keywordAt i "JOIN" then .ok (some (.inner, i + 1))
  else
    match ← JoinKind.all.findM? fun k => st.keywordAt i k.keyword with
    | none => .ok none
    | some kind =>
      let next ← st.skipOuter kind (i + 1)
      if ← st.keywordAt next "JOIN" then .ok (some (kind, next + 1)) else .ok none

/-- A clause of the kind opens at the index. -/
def opensAt (c : Clause) (i : Nat) : Access Bool :=
  match c with
  | .join => do
    let phrase ← st.joinAt i
    .ok phrase.isSome
  | .condition => st.keywordAt i "WHERE"
  | .grouping => st.pairAt i "GROUP" "BY"
  | .having => st.keywordAt i "HAVING"
  | .ordering => st.pairAt i "ORDER" "BY"

/-- A clause of one of the kinds opens at the index. -/
def opensAnyAt (cs : List Clause) (i : Nat) : Access Bool :=
  cs.anyM (st.opensAt · i)

/-- The range of what the first clause of the kind holds, searched for from the index on. -/
def clauseRange (c : Clause) (i : Nat) : Access (Option (Nat × Nat)) := do
  match ← find i st.tokens.length (st.opensAt c) with
  | none => .ok none
  | some opening =>
    let first := opening + c.phraseLength
    let stop ← findOrEnd first st.tokens.length (st.opensAnyAt c.enders)
    .ok (some (first, stop))

/-! ## Joins -/

/-- The index behind the optional alias of a joined table. -/
def skipAlias (i : Nat) : Access Nat := do
  let next ← st.skipKeyword i "AS"
  if st.nameAt next then
    if ← st.keywordAt next "ON" then .ok next else .ok (next + 1)
  else .ok next

/-- Reads ON and the condition behind it.  Gives the join, if there are both, and the index at which
reading goes on. -/
def joinCondition (kind : JoinKind) (table : List Char) (i : Nat) :
    Access (Option Join × Nat) := do
  if ← st.keywordAt i "ON" then
    let stop ← findOrEnd (i + 1) st.tokens.length (st.opensAnyAt (Clause.enders .join))
    if stop ≤ i + 1 then .ok (none, stop)
    else
      let condition ← st.textOf (i + 1) stop
      .ok (some ⟨kind, String.ofList table, String.ofList condition⟩, stop)
  else .ok (none, i)

/-- Reads what follows a join phrase.  Gives the join, if it is complete, and the index at which
reading goes on. -/
def joinBody (kind : JoinKind) (start : Nat) : Access (Option Join × Nat) := do
  match ← st.namePath? start with
  | none => .ok (none, start)
  | some tableStop =>
    let table ← st.textOf start tableStop
    let i ← st.skipAlias tableStop
    st.joinCondition kind table i

/-- Reads a join at the index, or passes over the token. -/
def joinStep (i : Nat) (done : List Join) : Access (Option (Nat × List Join)) := do
  match ← st.joinAt i with
  | none => .ok (some (i + 1, done))
  | some (kind, body) =>
    let read ← st.joinBody kind body
    .ok (some (read.2, done ++ read.1.toList))

/-- The complete joins from the index on. -/
def joins (i : Nat) : Access (List Join) := do
  let read ← loop st.tokens.length st.joinStep i []
  .ok read.2

end Statement

end SelectAlgebra.Checked

namespace SelectAlgebra

/-- An end of a run without its first token stands one place further. -/
theorem Run.placeOf_tail {r s : Run} (h : s <:+ r) (hs : s ≠ []) :
    placeOf r s.tail = placeOf r s + 1 := by
  have hlength := h.length_le
  have hpos := List.length_pos_iff.2 hs
  rw [placeOf, placeOf, List.length_tail]
  omega

/-- Where a clause opens, its phrase is in the run. -/
theorem Clause.phraseLength_le_of_opens {c : Clause} {r : Run} (h : c.opens r = true) :
    c.phraseLength ≤ r.length := by
  cases c with
  | join =>
    rcases Option.isSome_iff_exists.1 h with ⟨⟨kind, body⟩, hphrase⟩
    exact Nat.succ_le_of_lt (Nat.zero_lt_of_lt (joinPhrase?_length hphrase))
  | condition | having => exact Run.length_pos_of_startsWith h
  | grouping | ordering =>
    rw [opens, startsWithPair, Bool.and_eq_true] at h
    have hsecond := Run.length_pos_of_startsWith h.2
    rw [List.length_tail] at hsecond
    exact Nat.succ_le_of_lt (Nat.lt_of_sub_pos hsecond)

namespace Checked.Statement.Shows

variable {st : Statement} {r s next : Run} {i : Nat}

section

variable (h : st.Shows r)

include h

/-! ## Phrases -/

/-- Two keywords are found as in the run. -/
theorem pairAt_eq (i : Nat) (first second : String) :
    st.pairAt i first second = .ok (Clause.startsWithPair first second (r.drop i)) := by
  rw [pairAt, h.keywordAt_eq, h.keywordAt_eq, both_ok, Clause.startsWithPair, List.tail_drop]

/-- A keyword is passed over where the run starts with it. -/
theorem skipKeyword_eq (hs : s <:+ r) (word : String) :
    st.skipKeyword (Run.placeOf r s) word = .ok (Run.placeOf r (Run.skipKeyword word s)) := by
  rw [skipKeyword, h.keywordAt_eq, Run.drop_placeOf hs, ok_bind, Run.skipKeyword]
  by_cases hword : Run.startsWith word s = true
  · have hne : s ≠ [] := List.length_pos_iff.1 (Run.length_pos_of_startsWith hword)
    rw [if_pos hword, if_pos hword, Run.placeOf_tail hs hne]
  · rw [if_neg hword, if_neg hword]

/-- OUTER is passed over as in the run. -/
theorem skipOuter_eq (hs : s <:+ r) (kind : JoinKind) :
    st.skipOuter kind (Run.placeOf r s) = .ok (Run.placeOf r (Clause.skipOuter kind s)) := by
  rw [skipOuter, Clause.skipOuter]
  split
  · rfl
  · exact h.skipKeyword_eq hs "OUTER"

/-- A join phrase is read at a place as it is read of the run. -/
theorem joinAt_eq (hs : s <:+ r) :
    st.joinAt (Run.placeOf r s) =
      .ok ((Clause.joinPhrase? s).map fun read => (read.1, Run.placeOf r read.2)) := by
  have hkinds := findM?_ok (fun k : JoinKind => h.keywordAt_eq (Run.placeOf r s) k.keyword)
    JoinKind.all
  rw [Run.drop_placeOf hs] at hkinds
  rw [joinAt, h.keywordAt_eq, Run.drop_placeOf hs, ok_bind, hkinds, ok_bind, Clause.joinPhrase?,
    Clause.joinKind?]
  by_cases hjoin : Run.startsWith "JOIN" s = true
  · have hne : s ≠ [] := List.length_pos_iff.1 (Run.length_pos_of_startsWith hjoin)
    rw [if_pos hjoin, if_pos hjoin, Option.map_some, Run.placeOf_tail hs hne]
  · rw [if_neg hjoin, if_neg hjoin]
    cases hkind : JoinKind.all.find? fun k => Run.startsWith k.keyword s with
    | none => rfl
    | some kind =>
      have hfirst : Run.startsWith kind.keyword s = true :=
        List.find?_some (p := fun k : JoinKind => Run.startsWith k.keyword s) hkind
      have hne : s ≠ [] := List.length_pos_iff.1 (Run.length_pos_of_startsWith hfirst)
      have htail : s.tail <:+ r := (List.tail_suffix s).trans hs
      have hskip : Clause.skipOuter kind s.tail <:+ r :=
        (Clause.suffix_skipOuter kind s.tail).trans htail
      dsimp only
      rw [← Run.placeOf_tail hs hne, h.skipOuter_eq htail, ok_bind, h.keywordAt_eq,
        Run.drop_placeOf hskip, ok_bind]
      by_cases hword : Run.startsWith "JOIN" (Clause.skipOuter kind s.tail) = true
      · have hrest : Clause.skipOuter kind s.tail ≠ [] :=
          List.length_pos_iff.1 (Run.length_pos_of_startsWith hword)
        rw [if_pos hword, if_pos hword, Option.map_some, Run.placeOf_tail hskip hrest]
      · rw [if_neg hword, if_neg hword]
        rfl

/-- A clause opens at an index exactly where it opens the run. -/
theorem opensAt_eq (c : Clause) (hi : i ≤ r.length) :
    st.opensAt c i = .ok (c.opens (r.drop i)) := by
  cases c with
  | join =>
    have hphrase := h.joinAt_eq (List.drop_suffix i r)
    rw [Run.placeOf_drop hi] at hphrase
    rw [opensAt, hphrase, ok_bind, Option.isSome_map]
    rfl
  | condition | having => exact h.keywordAt_eq i _
  | grouping | ordering => exact h.pairAt_eq i _ _

/-- One of several clauses opens as in the run. -/
theorem opensAnyAt_eq (cs : List Clause) (hi : i ≤ r.length) :
    st.opensAnyAt cs i = .ok (Clause.opensAny cs (r.drop i)) :=
  anyM_ok (fun c => h.opensAt_eq c hi) cs

/-! ## Clauses -/

/-- The range of what the first clause of a kind holds.  When no clause of the kind opens, there is
no range and it holds nothing. -/
theorem clauseRange_eq (c : Clause) (hi : i ≤ r.length) :
    (st.clauseRange c i = .ok none ∧ c.body (r.drop i) = []) ∨
      ∃ start rest, st.clauseRange c i =
          .ok (some (start, start + (c.body (r.drop i)).length)) ∧
        r.drop start = c.body (r.drop i) ++ rest := by
  have hfind := find_eq (fun j hj => h.opensAt_eq c (Nat.le_of_lt hj)) hi
  have hsuffix := (Run.suffix_breakAt c.opens (r.drop i)).trans (List.drop_suffix i r)
  have hstops := (Run.breakAt_spec c.opens (r.drop i)).2
  rw [clauseRange, h.length_tokens, hfind, ok_bind, Clause.body]
  generalize (Run.breakAt c.opens (r.drop i)).2 = opened at hsuffix hstops
  rcases hstops with rfl | hopens
  · left
    rw [List.drop_nil]
    exact ⟨rfl, rfl⟩
  · right
    have hphrase := Clause.phraseLength_le_of_opens hopens
    have hpos : opened ≠ [] := by
      rintro rfl
      cases c <;> cases hopens
    have hlength := hsuffix.length_le
    have hstart : Run.placeOf r opened + c.phraseLength ≤ r.length := by
      rw [Run.placeOf]
      omega
    have hdrop : r.drop (Run.placeOf r opened + c.phraseLength) = opened.drop c.phraseLength := by
      rw [← List.drop_drop, Run.drop_placeOf hsuffix]
    have hstop := findOrEnd_eq (fun j hj => h.opensAnyAt_eq c.enders (Nat.le_of_lt hj)) hstart
    have happend := Run.breakAt_append (Clause.opensAny c.enders) (opened.drop c.phraseLength)
    rw [hdrop, Run.placeOf_eq hstart (hdrop.trans happend.symm)] at hstop
    refine ⟨Run.placeOf r opened + c.phraseLength, _, ?_, hdrop.trans happend.symm⟩
    rw [if_neg hpos]
    dsimp only
    rw [hstop]
    rfl

/-! ## Joins -/

/-- An alias is passed over at a place as it is passed over in the run. -/
theorem skipAlias_eq (hs : s <:+ r) :
    st.skipAlias (Run.placeOf r s) = .ok (Run.placeOf r (Join.skipAlias s)) := by
  have hskip := (Run.suffix_skipKeyword "AS" s).trans hs
  rw [skipAlias, h.skipKeyword_eq hs, ok_bind, h.nameAt_eq, h.keywordAt_eq,
    Run.drop_placeOf hskip, ok_bind, Join.skipAlias]
  cases hnext : Run.skipKeyword "AS" s with
  | nil => rfl
  | cons p ps =>
    have hplace := Run.placeOf_tail (hnext ▸ hskip) (List.cons_ne_nil p ps)
    rw [List.tail_cons] at hplace
    rw [List.head?_cons, Option.any_some, Run.startsWith_cons, ← hplace]
    dsimp only
    cases p.token.isName with
    | false => rfl
    | true => cases p.isTopKeyword "ON" <;> rfl

/-- The condition of a join is read at a place as it is read of the run. -/
theorem joinCondition_eq (kind : JoinKind) (path : Run) (hs : s <:+ r) :
    st.joinCondition kind (Run.text path) (Run.placeOf r s) =
      .ok ((Join.readCondition kind path s).1,
        Run.placeOf r (Join.readCondition kind path s).2) := by
  rw [joinCondition, h.keywordAt_eq, Run.drop_placeOf hs, ok_bind, Join.readCondition]
  by_cases hword : Run.startsWith "ON" s = true
  · have hne : s ≠ [] := List.length_pos_iff.1 (Run.length_pos_of_startsWith hword)
    have htail : s.tail <:+ r := (List.tail_suffix s).trans hs
    have hstop := findOrEnd_eq
      (fun j hj => h.opensAnyAt_eq (Clause.enders .join) (Nat.le_of_lt hj))
      (Run.placeOf_le r s.tail)
    have hsplit := Run.breakAt_append (Clause.opensAny (Clause.enders .join)) s.tail
    rw [Run.drop_placeOf htail] at hstop
    rw [if_pos hword, if_pos hword, ← Run.placeOf_tail hs hne, h.length_tokens, hstop, ok_bind]
    dsimp only
    generalize Run.breakAt (Clause.opensAny (Clause.enders .join)) s.tail = split at hsplit
    have hcondition : r.drop (Run.placeOf r s.tail) = split.1 ++ split.2 :=
      (Run.drop_placeOf htail).trans hsplit.symm
    have hplace := Run.placeOf_eq (Run.placeOf_le r s.tail) hcondition
    cases hnil : split.1 with
    | nil =>
      rw [if_pos (by rw [hplace, hnil]; exact Nat.le_refl _)]
      rfl
    | cons p ps =>
      have hafter : ¬ Run.placeOf r split.2 ≤ Run.placeOf r s.tail := by
        rw [hplace, hnil, List.length_cons]
        omega
      have htext := h.textOf_eq hcondition
      rw [← hplace] at htext
      rw [if_neg hafter, htext, ok_bind, hnil]
      rfl
  · rw [if_neg hword, if_neg hword]

/-- What follows a join phrase is read at a place as it is read of the run. -/
theorem joinBody_eq (kind : JoinKind) (hs : s <:+ r) :
    st.joinBody kind (Run.placeOf r s) =
      .ok ((Join.readBody kind s).1, Run.placeOf r (Join.readBody kind s).2) := by
  rw [joinBody, h.namePath?_eq, Run.drop_placeOf hs, ok_bind]
  cases hpath : Run.namePath? s with
  | none =>
    rw [Join.readBody_of_none hpath]
    rfl
  | some read =>
    rcases read with ⟨path, rest⟩
    have happend := Run.namePath?_append hpath
    have hrest : rest <:+ r := (happend ▸ List.suffix_append path rest).trans hs
    have hdrop : r.drop (Run.placeOf r s) = path ++ rest := (Run.drop_placeOf hs).trans happend.symm
    have htext := h.textOf_eq hdrop
    rw [← Run.placeOf_eq (Run.placeOf_le r s) hdrop] at htext
    rw [Join.readBody_of_some hpath, Option.map_some]
    dsimp only
    rw [htext, ok_bind, h.skipAlias_eq hrest, ok_bind]
    exact h.joinCondition_eq kind path ((Join.suffix_skipAlias rest).trans hrest)

/-- A step reads a join behind its phrase and passes over any other token. -/
theorem joinStep_eq (hs : s <:+ r) (done : List Join) :
    st.joinStep (Run.placeOf r s) done =
      .ok (some (match Clause.joinPhrase? s with
        | none => (Run.placeOf r s + 1, done)
        | some (kind, body) => (Run.placeOf r (Join.readBody kind body).2,
            done ++ (Join.readBody kind body).1.toList))) := by
  rw [joinStep, h.joinAt_eq hs, ok_bind]
  cases hphrase : Clause.joinPhrase? s with
  | none => rfl
  | some read =>
    rcases read with ⟨kind, body⟩
    have hbody := (Clause.suffix_joinPhrase? hphrase).trans hs
    rw [Option.map_some]
    dsimp only
    rw [h.joinBody_eq kind hbody]
    rfl

/-- The loop advances with every step, also behind a join phrase that no join follows. -/
theorem loop_joinStep (hs : s <:+ r) (done : List Join) :
    ∃ stop, loop st.tokens.length st.joinStep (Run.placeOf r s) done =
      .ok (stop, done ++ Join.ofRun s) := by
  induction hn : s.length using Nat.strongRecOn generalizing s done with
  | ind n ih =>
    have hlength := hs.length_le
    have htokens := h.length_tokens
    have hstep := h.joinStep_eq hs done
    cases s with
    | nil =>
      refine ⟨Run.placeOf r [], ?_⟩
      rw [loop_done (by rw [Run.placeOf, List.length_nil]; omega), Join.ofRun_nil, List.append_nil]
    | cons p ps =>
      have hlt : Run.placeOf r (p :: ps) < st.tokens.length := by
        rw [Run.placeOf, htokens, List.length_cons] at *
        omega
      cases hphrase : Clause.joinPhrase? (p :: ps) with
      | none =>
        rw [hphrase] at hstep
        have hps : ps <:+ r := (List.suffix_cons p ps).trans hs
        have hplace := Run.placeOf_tail hs (List.cons_ne_nil p ps)
        rw [loop_next hlt hstep (Nat.lt_succ_self _), ← hplace, Join.ofRun_eq_of_none hphrase]
        exact ih ps.length (by rw [← hn]; exact Nat.lt_succ_self _) hps done rfl
      | some read =>
        rcases read with ⟨kind, body⟩
        rw [hphrase] at hstep
        have hshorter : (Join.readBody kind body).2.length < n := by
          rw [← hn]
          exact Nat.lt_of_le_of_lt (Join.readBody_length kind body)
            (Clause.joinPhrase?_length hphrase)
        have hrest : (Join.readBody kind body).2 <:+ r :=
          ((Join.suffix_readBody kind body).trans (Clause.suffix_joinPhrase? hphrase)).trans hs
        have hadvance : Run.placeOf r (p :: ps) < Run.placeOf r (Join.readBody kind body).2 := by
          rw [Run.placeOf, Run.placeOf]
          omega
        rw [loop_next hlt hstep hadvance, Join.ofRun_eq_of_some hphrase, ← List.append_assoc]
        exact ih _ hshorter hrest _ rfl

/-- The joins of a statement are read in steps that advance. -/
theorem joins_eq (hi : i ≤ r.length) : st.joins i = .ok (Join.ofRun (r.drop i)) := by
  rcases h.loop_joinStep (List.drop_suffix i r) [] with ⟨stop, hloop⟩
  rw [Run.placeOf_drop hi] at hloop
  rw [joins, hloop]
  rfl

end

end Checked.Statement.Shows

end SelectAlgebra
