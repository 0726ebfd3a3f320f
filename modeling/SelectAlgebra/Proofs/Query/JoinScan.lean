import SelectAlgebra.Proofs.Query.JoinPhrase

/-!
# The scan of join phrases

A phrase that has no table, or a table without alias and ON, leaves something open: the reader
takes the first words of the next phrase for the missing part, keywords included.  What a sequence
of phrases is read as is therefore a scan of the phrases with what is open as its state.

Main results:

- Theorem `JoinBody.resume_table`: what a body is read as behind the words of a join.
- Theorem `JoinBody.resume_behindJoin`: what it is read as when JOIN was taken for a table.
- Theorem `Pending.resume_run`: reading one phrase is one step of the scan.
- Theorem `Pending.resume_runAll`: reading a sequence is the scan of its phrases.
-/

namespace SelectAlgebra

/-- The words of a join and what stands behind them. -/
structure JoinPhrase where
  words : JoinWords
  body : JoinBody

namespace JoinPhrase

def run (f : JoinPhrase) : Run :=
  f.words.run ++ f.body.run

/-- The join that the phrase describes with its own keywords; none when it is malformed. -/
def join? (f : JoinPhrase) : Option Join :=
  f.body.join? f.words.kind

def runAll (fs : List JoinPhrase) : Run :=
  fs.flatMap run

/-- The phrases are written as their forms say, each in front of the next and the last in front of
`tail`. -/
def ValidAll (tail : Run) : List JoinPhrase → Prop
  | [] => True
  | f :: fs => (f.words.Spelled ∧ f.body.Valid (runAll fs ++ tail)) ∧ ValidAll tail fs

/-- What may stand behind the phrases: nothing, or another clause and all that follows it, without
JOIN and ON outside parentheses. -/
def EndsJoins (tail : Run) : Prop :=
  Run.StopsBy (Clause.opensAny Clause.all) tail ∧
    ∀ p ∈ tail, p.isTopKeyword "JOIN" = false ∧ p.isTopKeyword "ON" = false

end JoinPhrase

/-! ## The scan of phrases -/

/-- What the last phrase has left open. -/
inductive Pending where
  | nothing
  /-- The alias of a table. -/
  | label
  /-- The table of a join of the kind. -/
  | table (kind : JoinKind)

namespace Pending

/-- Goes on reading joins where something is open. -/
def resume : Pending → Run → List Join
  | nothing, r => Join.ofRun r
  | label, r => Join.ofRun (Join.skipAlias r)
  | table kind, r => (Join.readBody kind r).1.toList ++ Join.ofRun (Join.readBody kind r).2

end Pending

namespace JoinBody

/-- What a body leaves open when it stands behind the words of a join of the kind. -/
def leaves (kind : JoinKind) : JoinBody → Pending
  | bare => .table kind
  | table _ [] => .label
  | _ => .nothing

/-- What a body is read as when the JOIN in front of it was taken for a table: a name alone is
then taken for the alias of that table. -/
def behindJoin (kind : JoinKind) (join : Placed) : JoinBody → Option Join × Pending
  | bare => (none, .label)
  | onCondition [_] [] _ condition =>
    (if condition.isEmpty then none
      else some ⟨kind, String.ofList join.token.text, String.ofList (Run.text condition)⟩, .nothing)
  | _ => (none, .nothing)

end JoinBody

namespace Pending

/-- What a phrase is read as where something is open, and what is open behind it.  An open alias
takes the first word of the phrase, an open table the first word and the second as its alias. -/
def read : Pending → JoinPhrase → Option Join × Pending
  | nothing, f => (f.join?, f.body.leaves f.words.kind)
  | label, ⟨.bare _, _⟩ => (none, nothing)
  | label, ⟨_, body⟩ => (body.join? .inner, body.leaves .inner)
  | table kind, ⟨.bare join, body⟩ => body.behindJoin kind join
  | table _, ⟨.named .., _⟩ => (none, nothing)
  | table _, ⟨.withOuter .., body⟩ => (body.join? .inner, body.leaves .inner)

/-- The joins that a sequence of phrases is read as. -/
def scan : Pending → List JoinPhrase → List Join
  | _, [] => []
  | o, f :: fs => (o.read f).1.toList ++ scan (o.read f).2 fs

end Pending

/-! ## What stands behind a phrase -/

namespace Clause

/-- A clause opens with a name that is neither AS, ON nor a dot. -/
theorem head_of_stopsBy {p : Placed} {r : Run} (h : Run.StopsBy (opensAny all) (p :: r)) :
    p.token.isName = true ∧ p.isTopKeyword "AS" = false ∧ p.isTopKeyword "ON" = false := by
  have hopen : opensAny all (p :: r) = true := h.resolve_left (by simp)
  rcases opensAny_iff.1 hopen with ⟨c, -, hc⟩
  rcases mem_openers_of_opens hc with ⟨word, hword, hp⟩
  have hall : ∀ c : Clause, ∀ word ∈ c.openers, Text.lower word.toList ≠ Text.lower "AS".toList ∧
      Text.lower word.toList ≠ Text.lower "ON".toList := by
    intro c
    cases c <;> decide
  have hne := hall c word hword
  exact ⟨Token.isName_of_isKeyword (Placed.isTopKeyword_iff.1 hp).2,
    Placed.isTopKeyword_of_ne hp hne.1, Placed.isTopKeyword_of_ne hp hne.2⟩

variable {r : Run} (h : Run.StopsBy (opensAny all) r)
include h

/-- A run that starts with a clause, or is empty, does not start with ON. -/
theorem startsWith_on_of_stopsBy : Run.startsWith "ON" r = false := by
  cases r with
  | nil => rfl
  | cons p r => rw [Run.startsWith_cons, (head_of_stopsBy h).2.2]

/-- A run that starts with a clause, or is empty, starts with no dot. -/
theorem noDot_of_stopsBy : Run.NoDot r := by
  cases r with
  | nil => simp [Run.NoDot]
  | cons p r => exact Run.noDot_of_isName (head_of_stopsBy h).1

/-- Where an alias is missing, the first word of the next clause is taken for it. -/
theorem skipAlias_of_stopsBy : Join.skipAlias r = r.tail := by
  cases r with
  | nil => rfl
  | cons p r =>
    rcases head_of_stopsBy h with ⟨hname, has, hon⟩
    exact Join.skipAlias_cons hname has hon

end Clause

namespace JoinBody

/-- No ON stands where a body starts. -/
theorem startsWith_on {b : JoinBody} {rest : Run} (h : b.Valid rest)
    (hrest : Run.StopsBy (Clause.opensAny Clause.all) rest) :
    Run.startsWith "ON" (b.run ++ rest) = false := by
  have hpath : ∀ {path : Run} (r : Run), Run.IsNamePath path →
      Run.startsWith "ON" (path ++ r) = false := by
    intro path r hpath
    rcases hpath.exists_cons with ⟨p, ps, rfl, hp⟩
    rw [List.cons_append, Run.startsWith_cons]
    exact Placed.isTopKeyword_of_isFreeName hp (by decide)
  cases b with
  | bare => exact Clause.startsWith_on_of_stopsBy hrest
  | table path label =>
    rw [run, List.append_assoc]
    exact hpath _ h.1
  | usingList path label word list =>
    rw [run, List.append_assoc]
    exact hpath _ h.1
  | onCondition path label word condition =>
    rw [run, List.append_assoc]
    exact hpath _ h.1

end JoinBody

/-- What may stand behind a phrase: nothing or a clause, with no ON behind its first word. -/
def ContinuesJoins (rest : Run) : Prop :=
  Run.StopsBy (Clause.opensAny Clause.all) rest ∧ Run.startsWith "ON" rest.tail = false

namespace JoinPhrase

/-- Every phrase of a sequence stands in front of what may stand behind a phrase. -/
theorem continuesJoins {fs : List JoinPhrase} {tail : Run} (h : ValidAll tail fs)
    (htail : EndsJoins tail) : ContinuesJoins (runAll fs ++ tail) := by
  induction fs with
  | nil =>
    refine ⟨htail.1, ?_⟩
    match tail, htail with
    | [], _ | [_], _ => rfl
    | _ :: p :: r, htail =>
      rw [runAll, List.flatMap_nil, List.nil_append, List.tail_cons, Run.startsWith_cons]
      exact (htail.2 p (by simp)).2
  | cons f fs ih =>
    rcases h with ⟨⟨hwords, hbody⟩, hfs⟩
    have hrest := (ih hfs).1
    have hsplit : runAll (f :: fs) ++ tail =
        f.words.run ++ (f.body.run ++ (runAll fs ++ tail)) := by
      simp [runAll, run]
    rw [hsplit]
    refine ⟨Or.inr (Clause.opensAny_iff.2 ⟨.join, by simp [Clause.all],
      JoinWords.opens_append _ hwords⟩), ?_⟩
    cases hw : f.words with
    | bare j => exact JoinBody.startsWith_on hbody hrest
    | named kind word j =>
      rw [hw] at hwords
      exact Placed.isTopKeyword_of_ne hwords.2 (by decide)
    | withOuter kind word outer j =>
      rw [hw] at hwords
      exact Placed.isTopKeyword_of_ne hwords.2.2.1 (by decide)

end JoinPhrase

/-! ## One phrase -/

namespace JoinBody

variable {b : JoinBody} {rest : Run} (h : b.Valid rest) (hrest : ContinuesJoins rest)
include h

/-- A body is passed over where no words of a join stand in front of it. -/
theorem ofRun_append : Join.ofRun (b.run ++ rest) = Join.ofRun rest :=
  Join.ofRun_append_of_free (free_join h)

/-- So is what is left of it when its first lexemes are taken away. -/
theorem ofRun_suffix (front back : Run) (hb : b.run = front ++ back) :
    Join.ofRun (back ++ rest) = Join.ofRun rest := by
  have hfree := free_join h
  rw [hb, Run.free_append] at hfree
  exact Join.ofRun_append_of_free hfree.2

include hrest

/-- Behind the words of a join, a body is read as the join that it describes. -/
theorem resume_table (kind : JoinKind) :
    (Pending.table kind).resume (b.run ++ rest) =
      (b.join? kind).toList ++ (b.leaves kind).resume rest := by
  have hstop := hrest.1
  cases b with
  | bare => rfl
  | table path label =>
    rcases h with ⟨hpath, halias⟩
    rw [run, List.append_assoc]
    by_cases hne : label = []
    · subst hne
      have hskip := Clause.skipAlias_of_stopsBy hstop
      have hread := Join.readBody_of_path kind hpath (Clause.noDot_of_stopsBy hstop)
        (by rw [hskip]; exact hrest.2)
      simp only [List.nil_append, Pending.resume, hread, leaves, join?]
    · have hskip := Join.skipAlias_of_isAlias rest halias hne
      have hread := Join.readBody_of_path kind hpath
        (halias.noDot_append (Clause.noDot_of_stopsBy hstop))
        (by rw [hskip]; exact Clause.startsWith_on_of_stopsBy hstop)
      rcases List.exists_cons_of_ne_nil hne with ⟨p, ps, rfl⟩
      simp only [Pending.resume, hread, hskip, leaves, join?]
  | usingList path label word list =>
    have hsuffix := ofRun_suffix h (path ++ label) (word :: list) (by simp [run])
    have hsuffix' := ofRun_suffix h (path ++ (label ++ [word])) list (by simp [run])
    rcases h with ⟨hpath, halias, hword, l, inner, c, rfl, hl, -⟩
    have hname := Token.isName_of_isKeyword (Placed.isTopKeyword_iff.1 hword).2
    have hon := Placed.isTopKeyword_of_ne hword (show _ ≠ Text.lower "ON".toList by decide)
    have hdot : Run.NoDot (word :: (l :: (inner ++ [c]) ++ rest)) := Run.noDot_of_isName hname
    have hleft : Run.startsWith "ON" (l :: (inner ++ [c]) ++ rest) = false := by
      rw [List.cons_append, Run.startsWith_cons]
      refine Placed.isTopKeyword_of_kind_ne "ON" fun hkind => ?_
      simp [Placed.isTop, hkind] at hl
    rw [run, List.append_assoc, List.append_assoc, List.cons_append]
    by_cases hne : label = []
    · subst hne
      have hskip := Join.skipAlias_cons (r := l :: (inner ++ [c]) ++ rest) hname
        (Placed.isTopKeyword_of_ne hword (by decide)) hon
      have hread := Join.readBody_of_path kind hpath hdot (by rw [hskip, hleft])
      simp only [List.nil_append, Pending.resume, hread, hskip, hsuffix', leaves, join?]
    · have hskip := Join.skipAlias_of_isAlias (word :: (l :: (inner ++ [c]) ++ rest)) halias hne
      have hread := Join.readBody_of_path kind hpath (halias.noDot_append hdot)
        (by rw [hskip, Run.startsWith_cons, hon])
      rw [List.cons_append] at hsuffix
      simp only [Pending.resume, hread, hskip, hsuffix, leaves, join?]
  | onCondition path label word condition =>
    have hread := Join.readBody_onCondition kind h hstop
    simp only [Pending.resume, hread, leaves]

omit h hrest in
/-- A table and its alias are one name, or a name behind which no ON stands. -/
theorem exists_name {path label : Run} (hpath : Run.IsNamePath path) (halias : Run.IsAlias label) :
    ∃ p more, path ++ label = p :: more ∧ p.token.IsFreeName ∧
      (path = [p] ∧ label = [] ∨
        more ≠ [] ∧ ∀ r, Run.startsWith "ON" (more ++ r) = false) := by
  have hon : ∀ {p : Placed} (r : Run), p.token.IsFreeName → Run.startsWith "ON" (p :: r) = false :=
    fun r hp => by
      rw [Run.startsWith_cons]
      exact Placed.isTopKeyword_of_isFreeName hp (by decide)
  cases hpath with
  | @name p hp =>
    refine ⟨p, label, rfl, hp, ?_⟩
    cases halias with
    | none => exact Or.inl ⟨rfl, rfl⟩
    | name hn => exact Or.inr ⟨by simp, fun r => hon _ hn⟩
    | asName ha hn =>
      refine Or.inr ⟨by simp, fun r => ?_⟩
      rw [List.cons_append, Run.startsWith_cons]
      exact Placed.isTopKeyword_of_ne ha (by decide)
  | @step p d path hp hd hpath =>
    refine ⟨p, d :: (path ++ label), rfl, hp, Or.inr ⟨by simp, fun r => ?_⟩⟩
    rw [List.cons_append, Run.startsWith_cons]
    exact Placed.isTopKeyword_of_kind_ne "ON" (by simp [hd])

/-- When the JOIN in front of a body was taken for a table, the body is not read as its own. -/
theorem resume_behindJoin (kind : JoinKind) {j : Placed} (hj : j.isTopKeyword "JOIN" = true) :
    (Pending.table kind).resume (j :: (b.run ++ rest)) =
      (b.behindJoin kind j).1.toList ++ (b.behindJoin kind j).2.resume rest := by
  have hstop := hrest.1
  have hjname := Token.isName_of_isKeyword (Placed.isTopKeyword_iff.1 hj).2
  -- what follows a name that is taken for the alias of the table JOIN
  have hmiss : ∀ {p : Placed} {back : Run}, b.run = p :: back → p.token.IsFreeName →
      Run.startsWith "ON" (back ++ rest) = false →
      (Pending.table kind).resume (j :: (b.run ++ rest)) = Join.ofRun rest := by
    intro p back hb hp hon
    have hread : Join.readBody kind (j :: p :: (back ++ rest)) = (none, back ++ rest) :=
      Join.readBody_of_names hjname hp.1 (Placed.isTopKeyword_of_isFreeName hp (by decide))
        (Placed.isTopKeyword_of_isFreeName hp (by decide)) hon
    have hsuffix := ofRun_suffix h [p] back hb
    rw [hb, List.cons_append]
    simp only [Pending.resume, hread, hsuffix]
    rfl
  cases b with
  | bare =>
    have hskip := Clause.skipAlias_of_stopsBy hstop
    have hread : Join.readBody kind (j :: rest) = (none, Join.skipAlias rest) := by
      have := Run.namePath?_cons hjname (Clause.noDot_of_stopsBy hstop)
      simp [Join.readBody, this, hskip, hrest.2]
    simp only [run, List.nil_append, Pending.resume, hread, behindJoin]
  | table path label =>
    rcases exists_name h.1 h.2 with ⟨p, more, hmore, hp, hshape⟩
    refine hmiss hmore hp ?_
    rcases hshape with ⟨rfl, rfl⟩ | ⟨-, hon⟩
    · obtain rfl : [] = more := (List.cons.inj hmore).2
      exact Clause.startsWith_on_of_stopsBy hstop
    · exact hon rest
  | usingList path label word list =>
    rcases exists_name h.1 h.2.1 with ⟨p, more, hmore, hp, hshape⟩
    have hb : (usingList path label word list).run = p :: (more ++ word :: list) := by
      rw [run, ← List.append_assoc, hmore, List.cons_append]
    refine hmiss hb hp ?_
    rw [List.append_assoc]
    rcases hshape with ⟨rfl, rfl⟩ | ⟨-, hon⟩
    · obtain rfl : [] = more := (List.cons.inj hmore).2
      rw [List.nil_append, List.cons_append, Run.startsWith_cons]
      exact Placed.isTopKeyword_of_ne h.2.2.1 (by decide)
    · exact hon _
  | onCondition path label word condition =>
    rcases exists_name h.1 h.2.1 with ⟨p, more, hmore, hp, hshape⟩
    have hb : (onCondition path label word condition).run = p :: (more ++ word :: condition) := by
      rw [run, ← List.append_assoc, hmore, List.cons_append]
    rcases hshape with ⟨rfl, rfl⟩ | ⟨hne, hon⟩
    · -- the name is the alias, so ON is where it has to be
      have hskip :
          Join.skipAlias (p :: word :: (condition ++ rest)) = word :: (condition ++ rest) :=
        Join.skipAlias_cons hp.1 (Placed.isTopKeyword_of_isFreeName hp (by decide))
          (Placed.isTopKeyword_of_isFreeName hp (by decide))
      have hpath := Run.namePath?_cons hjname
        (Run.noDot_of_isName (r := word :: (condition ++ rest)) hp.1)
      have hbreak := Run.breakAt_append_eq h.2.2.2 hstop
      have hread : Join.readBody kind (j :: p :: word :: (condition ++ rest)) =
          ((behindJoin kind j (onCondition [p] [] word condition)).1, rest) := by
        simp only [Join.readBody, hpath, hskip, Run.startsWith_cons, h.2.2.1, if_true,
          List.tail_cons, Clause.enders, hbreak, behindJoin, Run.text, List.flatMap_nil,
          List.append_nil]
        split <;> rfl
      simp only [run, List.nil_append, List.cons_append, Pending.resume, hread, behindJoin]
    · have hbehind : (onCondition path label word condition).behindJoin kind j =
          (none, .nothing) := by
        unfold behindJoin
        split
        · rename_i hx
          cases hx
        · rename_i hx
          cases hx
          exact absurd (List.cons.inj hmore).2.symm hne
        · rfl
      rw [hbehind]
      exact hmiss hb hp (by rw [List.append_assoc]; exact hon _)

end JoinBody

namespace Pending

open JoinPhrase

/-- Reading one phrase is one step of the scan. -/
theorem resume_run {f : JoinPhrase} {rest : Run} (o : Pending) (hwords : f.words.Spelled)
    (hbody : f.body.Valid rest) (hrest : ContinuesJoins rest) :
    o.resume (f.run ++ rest) = (o.read f).1.toList ++ (o.read f).2.resume rest := by
  rcases f with ⟨words, body⟩
  have htable := fun kind => JoinBody.resume_table hbody hrest kind
  have hbare : ∀ {j : Placed}, j.isTopKeyword "JOIN" = true →
      Join.ofRun (j :: (body.run ++ rest)) =
        (body.join? .inner).toList ++ (body.leaves .inner).resume rest := by
    intro j hj
    rw [← htable .inner]
    exact Join.ofRun_words (w := .bare j) (body.run ++ rest) hj
  have hname : ∀ {p : Placed} {word : String}, p.isTopKeyword word = true →
      p.token.isName = true :=
    fun hp => Token.isName_of_isKeyword (Placed.isTopKeyword_iff.1 hp).2
  have hskip : ∀ {p : Placed} {word : String} (r : Run), p.isTopKeyword word = true →
      Text.lower word.toList ≠ Text.lower "AS".toList →
      Text.lower word.toList ≠ Text.lower "ON".toList → Join.skipAlias (p :: r) = r :=
    fun r hp has hon => Join.skipAlias_cons (hname hp) (Placed.isTopKeyword_of_ne hp has)
      (Placed.isTopKeyword_of_ne hp hon)
  rw [JoinPhrase.run, List.append_assoc]
  cases o with
  | nothing =>
    rw [resume, Join.ofRun_words _ hwords]
    exact htable words.kind
  | label =>
    cases words with
    | bare j =>
      have hj : Join.skipAlias (j :: (body.run ++ rest)) = body.run ++ rest :=
        hskip _ hwords (by decide) (by decide)
      have hpass := JoinBody.ofRun_append hbody
      simp only [resume, JoinWords.run, List.cons_append, List.nil_append, hj, hpass, read]
      rfl
    | named kind word j =>
      have hword : Join.skipAlias (word :: j :: (body.run ++ rest)) = j :: (body.run ++ rest) :=
        hskip _ hwords.1 (by cases kind <;> decide) (by cases kind <;> decide)
      have hread := hbare hwords.2
      simp only [resume, JoinWords.run, List.cons_append, List.nil_append, hword, hread, read]
    | withOuter kind word outer j =>
      have hword : Join.skipAlias (word :: outer :: j :: (body.run ++ rest)) =
          outer :: j :: (body.run ++ rest) :=
        hskip _ hwords.2.1 (by cases kind <;> decide) (by cases kind <;> decide)
      have hread := hbare hwords.2.2.2
      have hpass := Join.ofRun_of_opensNone (j :: (body.run ++ rest))
        (JoinWords.opensNone_outer hwords.2.2.1)
      simp only [resume, JoinWords.run, List.cons_append, List.nil_append, hword, hpass, hread,
        read]
  | table kind =>
    cases words with
    | bare j => exact JoinBody.resume_behindJoin hbody hrest kind hwords
    | named k word j =>
      have hread : Join.readBody kind (word :: j :: (body.run ++ rest)) =
          (none, body.run ++ rest) :=
        Join.readBody_of_names (hname hwords.1) (hname hwords.2)
          (Placed.isTopKeyword_of_ne hwords.2 (by decide))
          (Placed.isTopKeyword_of_ne hwords.2 (by decide)) (JoinBody.startsWith_on hbody hrest.1)
      have hpass := JoinBody.ofRun_append hbody
      simp only [resume, JoinWords.run, List.cons_append, List.nil_append, hread, hpass, read]
    | withOuter k word outer j =>
      have hon : Run.startsWith "ON" (j :: (body.run ++ rest)) = false := by
        rw [Run.startsWith_cons]
        exact Placed.isTopKeyword_of_ne hwords.2.2.2 (by decide)
      have hread : Join.readBody kind (word :: outer :: j :: (body.run ++ rest)) =
          (none, j :: (body.run ++ rest)) :=
        Join.readBody_of_names (hname hwords.2.1) (hname hwords.2.2.1)
          (Placed.isTopKeyword_of_ne hwords.2.2.1 (by decide))
          (Placed.isTopKeyword_of_ne hwords.2.2.1 (by decide)) hon
      simp only [resume, JoinWords.run, List.cons_append, List.nil_append, hread,
        hbare hwords.2.2.2, read]
      rfl

/-- Behind the last phrase no join is read, whatever is open. -/
theorem resume_tail (o : Pending) {tail : Run} (h : EndsJoins tail) : o.resume tail = [] := by
  have hnone : ∀ {r : Run}, (∀ p ∈ r, p ∈ tail) → Join.ofRun r = [] := by
    intro r hr
    have := Join.ofRun_append_of_free (b := []) (Clause.free_join_of_forall r fun p hp =>
      (h.2 p (hr p hp)).1)
    rwa [List.append_nil, Join.ofRun_nil] at this
  have hon : ∀ {r : Run}, (∀ p ∈ r, p ∈ tail) → Run.startsWith "ON" r = false := by
    intro r hr
    cases r with
    | nil => rfl
    | cons p r =>
      rw [Run.startsWith_cons]
      exact (h.2 p (hr p (by simp))).2
  cases o with
  | nothing => exact hnone fun p hp => hp
  | label => exact hnone fun p hp => Join.skipAlias_subset tail hp
  | table kind =>
    rw [resume, Join.readBody]
    cases hpath : Run.namePath? tail with
    | none => exact hnone fun p hp => hp
    | some s =>
      rcases s with ⟨path, after⟩
      have hafter : ∀ p ∈ Join.skipAlias after, p ∈ tail := fun p hp => by
        rw [← Run.namePath?_append hpath]
        exact List.mem_append_right path (Join.skipAlias_subset after hp)
      simp only [hon hafter, Bool.false_eq_true, if_false]
      exact hnone hafter

/-- Reading a sequence of phrases is the scan of the phrases. -/
theorem resume_runAll {fs : List JoinPhrase} {tail : Run} (o : Pending) (h : ValidAll tail fs)
    (htail : EndsJoins tail) : o.resume (runAll fs ++ tail) = scan o fs := by
  induction fs generalizing o with
  | nil => exact resume_tail o htail
  | cons f fs ih =>
    rcases h with ⟨⟨hwords, hbody⟩, hfs⟩
    have hstep := resume_run o hwords hbody (continuesJoins hfs htail)
    have hsplit : runAll (f :: fs) ++ tail = f.run ++ (runAll fs ++ tail) := by
      simp [runAll]
    rw [hsplit, hstep, ih _ hfs, scan]

end Pending

end SelectAlgebra
