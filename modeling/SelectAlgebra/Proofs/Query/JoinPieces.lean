import SelectAlgebra.Proofs.Query.InTurn
import SelectAlgebra.Proofs.Statement.Recast

/-!
# What a join is read from

A complete join is read from two runs: a name path, which spells its table, and a condition.  The
reader of joins decides by the tokens of these runs and of what stands around them, so recasting a
run by a faithful map recasts the pieces of its joins.

Main results:

- Theorem `Join.map_join_pieces`: the joins of a run are what its pieces spell.
- Theorem `Join.pieces_map`: the pieces of a recast run.
- Theorem `Join.standsIn_of_mem_pieces`: the runs of a join stand in the run, and are not empty.
-/

namespace SelectAlgebra.Join

/-- The runs that a complete join is read from. -/
structure Pieces where
  kind : JoinKind
  path : Run
  condition : Run

namespace Pieces

/-- The join that the runs spell. -/
def join (x : Pieces) : Join :=
  ⟨x.kind, String.ofList (Run.text x.path), String.ofList (Run.text x.condition)⟩

/-- The pieces with every lexeme recast. -/
def recast (f : Placed → Placed) (x : Pieces) : Pieces :=
  ⟨x.kind, x.path.map f, x.condition.map f⟩

end Pieces

/-! ## One join -/

/-- Reads ON and the condition behind it, up to the next clause of any kind, for a join with the
name path. -/
def conditionPieces (kind : JoinKind) (path r : Run) : Option Pieces × Run :=
  if Run.startsWith "ON" r then
    let split := Run.breakAt (Clause.opensAny (Clause.enders .join)) r.tail
    (if split.1.isEmpty then none else some ⟨kind, path, split.1⟩, split.2)
  else (none, r)

/-- Reads what follows a join phrase.  Gives the pieces of the join, if it is complete, and the run
after what was read. -/
def bodyPieces (kind : JoinKind) (r : Run) : Option Pieces × Run :=
  match Run.namePath? r with
  | none => (none, r)
  | some (path, rest) => conditionPieces kind path (skipAlias rest)

/-- A join is made of the pieces that its condition gives. -/
theorem readCondition_eq (kind : JoinKind) (path r : Run) :
    readCondition kind path r =
      ((conditionPieces kind path r).1.map Pieces.join, (conditionPieces kind path r).2) := by
  unfold readCondition conditionPieces
  split
  · dsimp only
    split <;> rfl
  · rfl

/-- What a body is read as is what its pieces spell. -/
theorem readBody_eq (kind : JoinKind) (r : Run) :
    readBody kind r = ((bodyPieces kind r).1.map Pieces.join, (bodyPieces kind r).2) := by
  unfold bodyPieces
  cases h : Run.namePath? r with
  | none => exact readBody_of_none h
  | some read =>
    rcases read with ⟨path, rest⟩
    rw [readBody_of_some h]
    exact readCondition_eq kind path (skipAlias rest)

/-- What is left behind a join is no longer than its body. -/
theorem bodyPieces_length (kind : JoinKind) (r : Run) :
    (bodyPieces kind r).2.length ≤ r.length := by
  have := readBody_length kind r
  rwa [readBody_eq] at this

/-! ## All joins -/

/-- The pieces of the complete joins of a run, left to right. -/
def pieces (r : Run) : List Pieces :=
  match r with
  | [] => []
  | p :: ps =>
    match _h : Clause.joinPhrase? (p :: ps) with
    | none => pieces ps
    | some (kind, body) =>
      let step := bodyPieces kind body
      step.1.toList ++ pieces step.2
termination_by r.length
decreasing_by
  · simp
  · have h1 := Clause.joinPhrase?_length (by assumption)
    have h2 := bodyPieces_length kind body
    omega

@[simp]
theorem pieces_nil : pieces [] = [] := by
  rw [pieces]

/-- A token at which no join starts is passed over. -/
theorem pieces_eq_of_none {p : Placed} {ps : Run} (h : Clause.joinPhrase? (p :: ps) = none) :
    pieces (p :: ps) = pieces ps := by
  rw [pieces]
  split
  · rfl
  · rename_i h'
    rw [h] at h'
    cases h'

/-- Behind the words of a join its pieces are read, and then those of the others. -/
theorem pieces_eq_of_some {p : Placed} {ps body : Run} {kind : JoinKind}
    (h : Clause.joinPhrase? (p :: ps) = some (kind, body)) :
    pieces (p :: ps) = (bodyPieces kind body).1.toList ++ pieces (bodyPieces kind body).2 := by
  rw [pieces]
  split
  · rename_i h'
    rw [h] at h'
    cases h'
  · rename_i kind' body' h'
    rw [h] at h'
    cases h'
    rfl

/-- The joins of a run are what its pieces spell. -/
theorem map_join_pieces (r : Run) : (pieces r).map Pieces.join = ofRun r := by
  fun_induction pieces r with
  | case1 => rw [ofRun_nil]; rfl
  | case2 p ps hnone ih => rw [ofRun_eq_of_none hnone, ih]
  | case3 p ps kind body hsome step ih =>
    rw [ofRun_eq_of_some hsome, List.map_append, ih, readBody_eq]
    cases (bodyPieces kind body).1 <;> simp [step]

/-! ## Recast runs -/

section Recast

variable {f : Placed → Placed} (hf : Placed.Faithful f)

include hf

/-- An alias is passed over before or behind a faithful change. -/
theorem skipAlias_map (r : Run) : skipAlias (r.map f) = (skipAlias r).map f := by
  unfold skipAlias
  rw [Run.skipKeyword_map hf]
  cases Run.skipKeyword "AS" r with
  | nil => rfl
  | cons p ps =>
    simp only [List.map_cons, hf.isName, hf.isTopKeyword]
    split <;> rfl

/-- A faithful change keeps the pieces of a condition. -/
theorem conditionPieces_map (kind : JoinKind) (path r : Run) :
    conditionPieces kind (path.map f) (r.map f) =
      ((conditionPieces kind path r).1.map (Pieces.recast f),
        (conditionPieces kind path r).2.map f) := by
  unfold conditionPieces
  rw [Run.startsWith_map hf, ← List.map_tail,
    Run.breakAt_map (Clause.opensAny_map hf (Clause.enders .join))]
  split
  · simp only [List.isEmpty_map]
    split <;> rfl
  · rfl

/-- A faithful change keeps the pieces of a join. -/
theorem bodyPieces_map (kind : JoinKind) (r : Run) :
    bodyPieces kind (r.map f) =
      ((bodyPieces kind r).1.map (Pieces.recast f), (bodyPieces kind r).2.map f) := by
  unfold bodyPieces
  rw [Run.namePath?_map hf]
  cases Run.namePath? r with
  | none => rfl
  | some read =>
    dsimp only [Option.map_some]
    rw [skipAlias_map hf]
    exact conditionPieces_map hf kind read.1 (skipAlias read.2)

/-- The pieces of a recast run. -/
theorem pieces_map (r : Run) : pieces (r.map f) = (pieces r).map (Pieces.recast f) := by
  fun_induction pieces r with
  | case1 => simp
  | case2 p ps hnone ih =>
    have hphrase := Clause.joinPhrase?_map hf (p :: ps)
    rw [hnone] at hphrase
    rw [List.map_cons, pieces_eq_of_none hphrase, ih]
  | case3 p ps kind body hsome step ih =>
    have hphrase := Clause.joinPhrase?_map hf (p :: ps)
    rw [hsome] at hphrase
    rw [List.map_cons, pieces_eq_of_some hphrase, bodyPieces_map hf, List.map_append, ih]
    cases (bodyPieces kind body).1 <;> simp [step]

end Recast

/-! ## Where the pieces stand -/

/-- The runs of a join stand in the run, each in one piece, and are not empty. -/
structure Pieces.StandsIn (r : Run) (x : Pieces) : Prop where
  path_infix : x.path <:+: r
  condition_infix : x.condition <:+: r
  path_ne_nil : x.path ≠ []
  condition_ne_nil : x.condition ≠ []

/-- Pieces that stand in a part of a run stand in the run. -/
theorem Pieces.StandsIn.mono {r s : Run} {x : Pieces} (h : x.StandsIn r) (hr : r <:+: s) :
    x.StandsIn s where
  path_infix := h.path_infix.trans hr
  condition_infix := h.condition_infix.trans hr
  path_ne_nil := h.path_ne_nil
  condition_ne_nil := h.condition_ne_nil

/-- The pieces of a join stand in its body. -/
theorem standsIn_of_bodyPieces {kind : JoinKind} {r rest : Run} {x : Pieces}
    (h : bodyPieces kind r = (some x, rest)) : x.StandsIn r := by
  unfold bodyPieces at h
  cases hpath : Run.namePath? r with
  | none =>
    rw [hpath] at h
    cases h
  | some read =>
    rcases read with ⟨path, behind⟩
    have happ := Run.namePath?_append hpath
    rw [hpath] at h
    simp only [conditionPieces] at h
    split at h
    · split at h
      · cases h
      · rename_i hcondition
        obtain rfl := Option.some.inj (Prod.mk.inj h).1
        have hbehind : behind <:+ r := ⟨path, happ⟩
        have htail := ((List.tail_suffix _).trans (suffix_skipAlias behind)).trans hbehind
        exact {
          path_infix := (happ ▸ List.prefix_append path behind : path <+: r).isInfix
          condition_infix := (Run.prefix_breakAt _ _).isInfix.trans htail.isInfix
          path_ne_nil := namePath?_ne_nil hpath
          condition_ne_nil := by simpa using hcondition }
    · cases h

/-- What follows a join is an end of the run. -/
theorem suffix_bodyPieces (kind : JoinKind) (r : Run) : (bodyPieces kind r).2 <:+ r := by
  rcases inTurn_readBody kind r with ⟨front, hfront, -⟩
  rw [readBody_eq] at hfront
  exact ⟨front, hfront.symm⟩

/-- The runs of every join of a run stand in the run, and are not empty. -/
theorem standsIn_of_mem_pieces {r : Run} : ∀ x ∈ pieces r, x.StandsIn r := by
  fun_induction pieces r with
  | case1 => simp
  | case2 p ps hnone ih =>
    intro x hx
    exact (ih x hx).mono (List.suffix_cons p ps).isInfix
  | case3 p ps kind body hsome step ih =>
    intro x hx
    have hbody := Clause.suffix_joinPhrase? hsome
    rcases List.mem_append.1 hx with hx | hx
    · have hread : bodyPieces kind body = (some x, step.2) :=
        Prod.ext (Option.mem_toList.1 hx) rfl
      exact (standsIn_of_bodyPieces hread).mono hbody.isInfix
    · exact (ih x hx).mono ((suffix_bodyPieces kind body).trans hbody).isInfix

end SelectAlgebra.Join
