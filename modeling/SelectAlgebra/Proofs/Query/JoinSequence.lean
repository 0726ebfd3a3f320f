import SelectAlgebra.Proofs.Query.Acceptance
import SelectAlgebra.Proofs.Query.JoinScan

/-!
# Sequences of join phrases

The joins of a statement are to be its complete phrases, left to right, with malformed phrases
between them passed over.  That is so exactly when no complete phrase stands where the malformed
one in front of it has left its table or its alias open.  Only INNER JOIN is read as what it says
behind an open alias, since JOIN alone means the same.

Main results:

- Theorem `Pending.scan_eq_iff`: when the scan of phrases gives the complete ones.
- Theorem `Query.joins_eq_iff_intact`: when the joins of a query are its complete phrases.
-/

namespace SelectAlgebra

namespace Pending

open JoinPhrase

/-- A phrase with these words is read with its own kind, table and condition. -/
def Keeps : Pending → JoinWords → Prop
  | nothing, _ => True
  | label, .named .inner _ _ => True
  | _, _ => False

/-- Every complete phrase stands where it is read as what it says. -/
def Intact : Pending → List JoinPhrase → Prop
  | _, [] => True
  | o, f :: fs => (f.join?.isSome = true → o.Keeps f.words) ∧ Intact (o.read f).2 fs

/-! ## One phrase -/

/-- Only a complete phrase is read as a join. -/
theorem read_eq_none {f : JoinPhrase} (o : Pending) (h : f.join? = none) : (o.read f).1 = none := by
  rcases f with ⟨words, body⟩
  have hbody : ∀ kind, body.join? kind = none := by
    intro kind
    cases body with
    | bare | table | usingList => rfl
    | onCondition path label word condition =>
      simpa [join?, JoinBody.join?] using h
  have hbehind : ∀ kind j, (body.behindJoin kind j).1 = none := by
    intro kind j
    unfold JoinBody.behindJoin
    split
    · rfl
    · simpa [JoinBody.join?] using hbody kind
    · rfl
  cases o with
  | nothing => exact h
  | label =>
    cases words with
    | bare => rfl
    | named | withOuter => exact hbody .inner
  | table kind =>
    cases words with
    | bare j => exact hbehind kind j
    | named => rfl
    | withOuter => exact hbody .inner

/-- A body is not the same join behind the words of another kind. -/
theorem join?_kind_ne {body : JoinBody} {kind kind' : JoinKind} (h : kind ≠ kind')
    (hsome : (body.join? kind').isSome = true) : body.join? kind ≠ body.join? kind' := by
  cases body with
  | bare | table | usingList => cases hsome
  | onCondition path label word condition =>
    rw [JoinBody.join?] at hsome
    split at hsome
    · cases hsome
    · rename_i hne
      simp [JoinBody.join?, hne, h]

/-- A name is not spelled like JOIN. -/
theorem text_ne_of_isFreeName {p j : Placed} (hp : p.token.IsFreeName)
    (hj : j.isTopKeyword "JOIN" = true) : j.token.text ≠ p.token.text := by
  intro htext
  have hsame := (Placed.isTopKeyword_iff.1 hj).2
  simp only [Token.isKeyword, Bool.and_eq_true] at hsame
  have := hp.2 "JOIN" (by decide)
  rw [← htext, hsame.2] at this
  cases this

/-- A JOIN behind a pending body is not read as that body. -/
theorem behindJoin_ne {body : JoinBody} {rest : Run} {j : Placed} (kind kind' : JoinKind)
    (hbody : body.Valid rest) (hj : j.isTopKeyword "JOIN" = true)
    (hsome : (body.join? kind').isSome = true) : (body.behindJoin kind j).1 ≠ body.join? kind' := by
  unfold JoinBody.behindJoin
  split
  · cases hsome
  · rename_i p word condition
    have hp : p.token.IsFreeName := by
      rcases hbody.1.exists_cons with ⟨q, more, hq, hfree⟩
      rwa [(List.cons.inj hq).1]
    have hne : condition.isEmpty = false := by
      cases hempty : condition.isEmpty with
      | false => rfl
      | true => simp [JoinBody.join?, hempty] at hsome
    have htext := text_ne_of_isFreeName hp hj
    simp [JoinBody.join?, hne, Run.text, String.ofList_inj, htext]
  · intro h
    rw [← h] at hsome
    cases hsome

/-- A complete phrase is read as the join that it describes exactly where it is kept. -/
theorem read_eq_iff {f : JoinPhrase} {rest : Run} (o : Pending) (hwords : f.words.Spelled)
    (hbody : f.body.Valid rest) (hsome : f.join?.isSome = true) :
    (o.read f).1 = f.join? ↔ o.Keeps f.words := by
  rcases f with ⟨words, body⟩
  have hnone : none ≠ body.join? words.kind := by
    intro h
    rw [join?, ← h] at hsome
    cases hsome
  cases o with
  | nothing => simp [read, Keeps]
  | label =>
    cases words with
    | bare j => simpa [Keeps, read, join?] using hnone
    | named kind word j =>
      cases kind with
      | inner => simp [Keeps, read, join?, JoinWords.kind]
      | left | right | full =>
        simpa [Keeps, read, join?, JoinWords.kind] using
          join?_kind_ne (by simp [JoinWords.kind]) hsome
    | withOuter kind word outer j =>
      simpa [Keeps, read, join?, JoinWords.kind] using join?_kind_ne hwords.1.symm hsome
  | table k =>
    cases words with
    | bare j => simpa [Keeps, read, join?] using behindJoin_ne k _ hbody hwords hsome
    | named kind word j => simpa [Keeps, read, join?] using hnone
    | withOuter kind word outer j =>
      simpa [Keeps, read, join?, JoinWords.kind] using join?_kind_ne hwords.1.symm hsome

/-! ## Many phrases -/

/-- There are at most as many joins as complete phrases. -/
theorem length_scan_le (o : Pending) (fs : List JoinPhrase) :
    (scan o fs).length ≤ (fs.filterMap join?).length := by
  induction fs generalizing o with
  | nil => exact Nat.le_refl 0
  | cons f fs ih =>
    have := ih (o.read f).2
    rw [scan, List.length_append]
    cases hf : f.join? with
    | none =>
      rw [List.filterMap_cons_none hf, read_eq_none o hf, Option.toList_none, List.length_nil]
      omega
    | some join =>
      have hone : (o.read f).1.toList.length ≤ 1 := by
        cases (o.read f).1 <;> simp
      rw [List.filterMap_cons_some hf, List.length_cons]
      omega

/-- The scan gives the complete phrases exactly when each of them is kept. -/
theorem scan_eq_iff {fs : List JoinPhrase} {tail : Run} (o : Pending) (h : ValidAll tail fs) :
    scan o fs = fs.filterMap join? ↔ Intact o fs := by
  induction fs generalizing o with
  | nil => simp [scan, Intact]
  | cons f fs ih =>
    rcases h with ⟨⟨hwords, hbody⟩, hfs⟩
    have ih := ih (o.read f).2 hfs
    rw [scan, Intact]
    cases hf : f.join? with
    | none =>
      rw [List.filterMap_cons_none hf, read_eq_none o hf, ← ih]
      simp
    | some join =>
      have hkeeps := read_eq_iff o hwords hbody (by simp [hf])
      rw [List.filterMap_cons_some hf, ← ih, ← hkeeps, hf]
      cases hread : (o.read f).1 with
      | none =>
        -- one join too few has been read, and no later phrase makes up for it
        have hlen := length_scan_le (o.read f).2 fs
        have hne : scan (o.read f).2 fs ≠ join :: fs.filterMap join? := fun h => by
          rw [h, List.length_cons] at hlen
          omega
        simpa using hne
      | some join' => simp

/-- Behind complete phrases nothing is open. -/
theorem intact_of_forall {fs : List JoinPhrase} (h : ∀ f ∈ fs, f.join?.isSome = true) :
    Intact .nothing fs := by
  induction fs with
  | nil => trivial
  | cons f fs ih =>
    refine ⟨fun _ => trivial, ?_⟩
    have hf := h f (by simp)
    have hleaves : (nothing.read f).2 = .nothing := by
      rcases f with ⟨words, body⟩
      cases body with
      | bare | table | usingList => cases hf
      | onCondition => rfl
    rw [hleaves]
    exact ih fun g hg => h g (by simp [hg])

end Pending

/-! ## The joins of a query -/

namespace Query

open JoinPhrase

/-- The joins of a query are read from its clauses. -/
theorem joins_of_ofParts? {s : Parts} {q : Query} (h : ofParts? s = some q) :
    q.joins = Join.ofRun s.clauses := by
  unfold ofParts? at h
  dsimp only at h
  split at h
  · cases h
  · exact (Option.some.inj h) ▸ rfl

/-- When the clauses of a statement start with a sequence of join phrases, complete or malformed,
the joins of its query are the complete phrases, each with the kind that its own keywords spell,
exactly when none of them stands where a malformed one has left its table or its alias open. -/
theorem joins_eq_iff_intact {text : String} {q : Query} {o : Outline (Run.ofText text.toList)}
    {fs : List JoinPhrase} {tail : Run} (hq : ofText? text = some q)
    (hclauses : o.clauses = runAll fs ++ tail) (hvalid : ValidAll tail fs)
    (htail : EndsJoins tail) :
    q.joins = fs.filterMap join? ↔ Pending.Intact .nothing fs := by
  rcases exists_outline_of_ofText? hq with ⟨hselect, -⟩
  rw [ofText?_eq_ofParts? hselect o] at hq
  rw [joins_of_ofParts? hq, ← Pending.scan_eq_iff .nothing hvalid,
    ← Pending.resume_runAll .nothing hvalid htail, ← hclauses]
  rfl

/-- A bare word behind one space, outside parentheses. -/
def spacedWord (word : String) : Placed :=
  ⟨⟨[' '], ⟨.word, word.toList⟩⟩, 0⟩

/-- The phrase LEFT JOIN C ON A.c = C.id behind a phrase JOIN B with the alias, or without one. -/
def leftBehindJoin (label : Run) : List JoinPhrase :=
  [⟨.bare (spacedWord "JOIN"), .table [spacedWord "B"] label⟩,
    ⟨.named .left (spacedWord "LEFT") (spacedWord "JOIN"),
      .onCondition [spacedWord "C"] [] (spacedWord "ON") (Run.ofText " A.c = C.id".toList)⟩]

theorem validAll_leftBehindJoin {label : Run} (h : Run.IsAlias label) :
    ValidAll [] (leftBehindJoin label) :=
  ⟨⟨(by decide : (spacedWord "JOIN").isTopKeyword "JOIN" = true), .name (by decide), h⟩,
    ⟨⟨by decide, by decide⟩, .name (by decide), .none, by decide, by decide +kernel⟩, trivial⟩

theorem endsJoins_nil : EndsJoins [] :=
  ⟨Or.inl rfl, by simp⟩

/-- An accepted text with given clauses has an outline with them. -/
theorem exists_outline_of_clauses (text : String) (clauses : Run)
    (hsome : (ofText? text).isSome = true)
    (hclauses : (Parts.ofRun? (Run.ofText text.toList)).map Parts.clauses = some clauses) :
    ∃ q, ∃ o : Outline (Run.ofText text.toList), ofText? text = some q ∧ o.clauses = clauses := by
  rcases Option.isSome_iff_exists.1 hsome with ⟨q, hq⟩
  rcases exists_outline_of_ofText? hq with ⟨hselect, o, -⟩
  rw [o.ofRun?_eq (o.isKeyword_opener hselect)] at hclauses
  exact ⟨q, o, hq, Option.some.inj hclauses⟩

/-- Behind a table with an alias nothing is open, and the phrase that follows is a join. -/
theorem joins_behind_alias :
    ∃ q, ofText? "SELECT * FROM A JOIN B b LEFT JOIN C ON A.c = C.id" = some q ∧
      q.joins = (leftBehindJoin [spacedWord "b"]).filterMap join? := by
  obtain ⟨q, o, hq, hclauses⟩ := exists_outline_of_clauses
    "SELECT * FROM A JOIN B b LEFT JOIN C ON A.c = C.id"
    (runAll (leftBehindJoin [spacedWord "b"]) ++ []) (by decide +kernel) (by decide +kernel)
  have hvalid := validAll_leftBehindJoin (.name (by decide : (spacedWord "b").token.IsFreeName))
  exact ⟨q, hq, (joins_eq_iff_intact hq hclauses hvalid endsJoins_nil).2
    ⟨fun _ => trivial, fun _ => trivial, trivial⟩⟩

/-- Behind a table without an alias, LEFT is taken for the alias, and the join is an inner one. -/
theorem joins_behind_open_alias :
    ∃ q, ∃ o : Outline (Run.ofText "SELECT * FROM A JOIN B LEFT JOIN C ON A.c = C.id".toList),
      ofText? "SELECT * FROM A JOIN B LEFT JOIN C ON A.c = C.id" = some q ∧
      o.clauses = runAll (leftBehindJoin []) ++ [] ∧ ValidAll [] (leftBehindJoin []) ∧
      EndsJoins [] ∧ q.joins = [⟨.inner, "C", "A.c = C.id"⟩] ∧
      (leftBehindJoin []).filterMap join? = [⟨.left, "C", "A.c = C.id"⟩] := by
  obtain ⟨q, o, hq, hclauses⟩ := exists_outline_of_clauses
    "SELECT * FROM A JOIN B LEFT JOIN C ON A.c = C.id"
    (runAll (leftBehindJoin []) ++ []) (by decide +kernel) (by decide +kernel)
  have hjoins : (ofText? "SELECT * FROM A JOIN B LEFT JOIN C ON A.c = C.id").map Query.joins =
      some [⟨.inner, "C", "A.c = C.id"⟩] := by
    decide +kernel
  rw [hq] at hjoins
  exact ⟨q, o, hq, hclauses, validAll_leftBehindJoin .none, endsJoins_nil, Option.some.inj hjoins,
    by decide +kernel⟩

end Query

end SelectAlgebra
