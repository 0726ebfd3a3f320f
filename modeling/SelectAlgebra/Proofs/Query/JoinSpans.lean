import SelectAlgebra.Proofs.Query.JoinExchange

/-!
# Where the joins of a statement stand

Every join of a run is read from a span, which reaches from the words of its phrase to the end of
its condition.  When hidden lexemes are exchanged, the joins in front of them and behind them stay
and move, and a join around them keeps its kind.

Main results:

- Theorem `Join.map_snd_locate`: the joins of a run are those that are located in it.
- Theorem `Join.locate_exchange`: the joins around exchanged lexemes are the same one by one.
-/

namespace SelectAlgebra.Join

/-- The complete joins of a run that starts at place `start`, each behind the span it is read
from. -/
def locate (start : Nat) (r : Run) : List (Span × Join) :=
  match r with
  | [] => []
  | p :: ps =>
    match _h : Clause.joinPhrase? (p :: ps) with
    | none => locate (start + 1) ps
    | some (kind, body) =>
      let step := readBody kind body
      let n := (p :: ps).length - step.2.length
      (step.1.toList.map fun j => (⟨start, (p :: ps).take n⟩, j)) ++ locate (start + n) step.2
termination_by r.length
decreasing_by
  · simp
  · have h1 := Clause.joinPhrase?_length (by assumption)
    have h2 := readBody_length kind body
    omega

@[simp]
theorem locate_nil (start : Nat) : locate start [] = [] := by
  rw [locate]

/-- A token at which no join starts is passed over. -/
theorem locate_eq_of_none {start : Nat} {p : Placed} {ps : Run}
    (h : Clause.joinPhrase? (p :: ps) = none) :
    locate start (p :: ps) = locate (start + 1) ps := by
  rw [locate]
  split
  · rfl
  · rename_i h'
    rw [h] at h'
    cases h'

/-- A join is located where its words stand, and the others behind it. -/
theorem locate_eq_of_some {start : Nat} {p : Placed} {ps body rest : Run} {kind : JoinKind}
    {j? : Option Join} (h : Clause.joinPhrase? (p :: ps) = some (kind, body))
    (hbody : readBody kind body = (j?, rest)) :
    locate start (p :: ps) =
      (j?.toList.map fun j => (⟨start, (p :: ps).take ((p :: ps).length - rest.length)⟩, j)) ++
        locate (start + ((p :: ps).length - rest.length)) rest := by
  rw [locate]
  split
  · rename_i h'
    rw [h] at h'
    cases h'
  · rename_i kind' body' h'
    rw [h] at h'
    cases h'
    simp only [hbody]

/-- The joins of a run are those that are located in it. -/
theorem map_snd_locate (start : Nat) (r : Run) : (locate start r).map Prod.snd = ofRun r := by
  fun_induction locate start r with
  | case1 start => simp
  | case2 start p ps h ih => rw [ofRun_eq_of_none h, ih]
  | case3 start p ps kind body h step n ih =>
    rw [ofRun_eq_of_some h, List.map_append, ih, List.map_map]
    congr 1
    exact List.map_id _

/-! ## Exchanging lexemes -/

variable {hid new : Run} {place : Nat}

/-- Two located joins are of one kind, and the same join when the first has none of the `count`
lexemes from place `first` on. -/
structure SameJoin (first count : Nat) (x x' : Span × Join) : Prop where
  kind : x'.2.kind = x.2.kind
  join : x.1.Apart first count → x'.2 = x.2

/-- A join is the same as itself. -/
theorem SameJoin.refl (first count : Nat) (x : Span × Join) : SameJoin first count x x :=
  ⟨rfl, fun _ => rfl⟩

/-- What is read from one phrase and from another is located alike. -/
theorem SameJoin.forall₂_toList {first count : Nat} {s : Span} {j? j?' : Option Join} (s' : Span)
    (hkind : j?'.map Join.kind = j?.map Join.kind) (hjoin : s.Apart first count → j?' = j?) :
    List.Forall₂ (SameJoin first count) (j?.toList.map fun j => (s, j))
      (j?'.toList.map fun j => (s', j)) := by
  cases j? with
  | none =>
    cases j?' with
    | none => exact .nil
    | some j' => cases hkind
  | some j =>
    cases j?' with
    | none => cases hkind
    | some j' =>
      refine .cons ⟨?_, ?_⟩ .nil
      · exact Option.some.inj hkind
      · exact fun hapart => Option.some.inj (hjoin hapart)

/-- Behind the exchanged lexemes, the joins are the same at moved places. -/
theorem locate_behind (hid new : Run) (place k : Nat) (r : Run) :
    List.Forall₂ (SameJoin place hid.length) (locate (place + hid.length + k) r)
      (locate (place + new.length + k) r) := by
  induction hlen : r.length using Nat.strongRecOn generalizing k r with
  | ind n ih =>
    cases r with
    | nil =>
      rw [locate_nil, locate_nil]
      exact .nil
    | cons p ps =>
      cases hphrase : Clause.joinPhrase? (p :: ps) with
      | none =>
        rw [locate_eq_of_none hphrase, locate_eq_of_none hphrase, Nat.add_assoc _ k,
          Nat.add_assoc _ k]
        exact ih ps.length (by rw [← hlen, List.length_cons]; omega) _ _ rfl
      | some x =>
        rcases x with ⟨kind, body⟩
        cases hbody : readBody kind body with
        | mk j? rest =>
          have h1 := Clause.joinPhrase?_length hphrase
          have h2 := readBody_length kind body
          rw [hbody] at h2
          rw [locate_eq_of_some hphrase hbody, locate_eq_of_some hphrase hbody, Nat.add_assoc _ k,
            Nat.add_assoc _ k]
          refine List.rel_append ?_ (ih rest.length (by dsimp only at h2; omega) _ _ rfl)
          exact SameJoin.forall₂_toList _ rfl fun _ => rfl

/-- No join phrase starts at a hidden lexeme. -/
theorem locate_hidden {r : Run} (start : Nat) (b : Run) (h : ∀ p ∈ r, p.Hidden) :
    locate start (r ++ b) = locate (start + r.length) b := by
  induction r generalizing start with
  | nil => rfl
  | cons p r ih =>
    have hnone : Clause.joinPhrase? (p :: (r ++ b)) = none :=
      Clause.joinPhrase?_append [] (r ++ b) (h p (by simp))
    rw [List.cons_append, locate_eq_of_none hnone, ih _ fun q hq => h q (by simp [hq]),
      List.length_cons, Nat.add_assoc, Nat.add_comm 1]

/-! ## One phrase in front of hidden lexemes -/

section Append

variable {start : Nat} {p : Placed} {ps body rest b : Run} {kind : JoinKind} {j? : Option Join}

/-- A token in front of a hidden run at which no join starts is passed over. -/
theorem locate_append_of_none (hhid : hid.Hidden) (h : Clause.joinPhrase? (p :: ps) = none) :
    locate start (p :: ps ++ (hid ++ b)) = locate (start + 1) (ps ++ (hid ++ b)) := by
  have hphrase := Clause.joinPhrase?_append_hidden hhid (p :: ps) b
  rw [h, Option.map_none, List.cons_append] at hphrase
  exact locate_eq_of_none hphrase

/-- A join of which the reading leaves `rest` is located in what stands in front of that. -/
theorem locate_append_of_some (hhid : hid.Hidden)
    (h : Clause.joinPhrase? (p :: ps) = some (kind, body))
    (hbody : readBody kind (body ++ (hid ++ b)) = (j?, rest)) {read : Run}
    (hread : p :: ps ++ (hid ++ b) = read ++ rest) :
    locate start (p :: ps ++ (hid ++ b)) =
      (j?.toList.map fun j => (⟨start, read⟩, j)) ++ locate (start + read.length) rest := by
  have hphrase := Clause.joinPhrase?_append_hidden hhid (p :: ps) b
  rw [h, Option.map_some, List.cons_append] at hphrase
  have hlocate : locate start (p :: (ps ++ (hid ++ b))) = _ := locate_eq_of_some hphrase hbody
  rw [← List.cons_append, hread, List.length_append, Nat.add_sub_cancel, List.take_left] at hlocate
  rw [hread]
  exact hlocate

end Append

/-- The joins around exchanged lexemes are the same one by one. -/
theorem locate_exchange (h : Opaque hid new) (start : Nat) (a b : Run)
    (hplace : start + a.length = place) :
    List.Forall₂ (SameJoin place hid.length) (locate start (a ++ (hid ++ b)))
      (locate start (a ++ (new ++ b))) := by
  induction hlen : a.length using Nat.strongRecOn generalizing start a with
  | ind n ih =>
    cases a with
    | nil =>
      rw [List.nil_append, List.nil_append, locate_hidden _ _ h.hidden.hidden,
        locate_hidden _ _ h.symm.hidden.hidden]
      rw [List.length_nil, Nat.add_zero] at hplace
      rw [hplace]
      exact locate_behind hid new place 0 b
    | cons p ps =>
      rw [List.length_cons] at hplace hlen
      cases hx : Clause.joinPhrase? (p :: ps) with
      | none =>
        rw [locate_append_of_none h.hidden hx, locate_append_of_none h.symm.hidden hx]
        exact ih ps.length (by omega) _ _ (by omega) rfl
      | some x =>
        rcases x with ⟨kind, body⟩
        have hlt := Clause.joinPhrase?_length hx
        rw [List.length_cons] at hlt
        have hbody := readBody_exchange kind h body b
        cases hy : readBody kind (body ++ (hid ++ b)) with
        | mk j? rest =>
          cases hy' : readBody kind (body ++ (new ++ b)) with
          | mk j?' rest' =>
            rw [hy, hy'] at hbody
            cases hbody with
            | @stops _ c hc =>
              rcases hc.trans (Clause.suffix_joinPhrase? hx) with ⟨read, hread⟩
              have hsplit : ∀ x : Run, p :: ps ++ x = read ++ (c ++ x) := by
                intro x
                rw [← hread, List.append_assoc]
              have hreadLength := congrArg List.length hread
              rw [List.length_append, List.length_cons] at hreadLength
              have hle := hc.length_le
              rw [locate_append_of_some h.hidden hx hy (hsplit _),
                locate_append_of_some h.symm.hidden hx hy' (hsplit _)]
              refine List.rel_append ?_ (ih c.length (by omega) _ _ (by omega) rfl)
              exact SameJoin.forall₂_toList _ rfl fun _ => rfl
            | passes hkind hc =>
              rcases hc with ⟨d, rfl⟩
              have hsplit : ∀ x : Run,
                  p :: ps ++ (x ++ (d ++ rest)) = (p :: ps ++ (x ++ d)) ++ rest := by
                intro x
                simp only [List.append_assoc]
              have hlength : ∀ x : Run,
                  start + (p :: ps ++ (x ++ d)).length = place + x.length + d.length := by
                intro x
                rw [List.length_append, List.length_append, List.length_cons]
                omega
              rw [locate_append_of_some h.hidden hx hy (hsplit _),
                locate_append_of_some h.symm.hidden hx hy' (hsplit _), hlength, hlength]
              refine List.rel_append ?_ (locate_behind hid new place d.length rest)
              refine SameJoin.forall₂_toList _ hkind fun hapart => ?_
              exact absurd hapart (Exchanged.not_apart_around d hplace h.hidden)

end SelectAlgebra.Join
