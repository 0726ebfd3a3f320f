import SelectAlgebra.Proofs.Query.JoinPhrase
import SelectAlgebra.Proofs.Statement.Exchange

/-!
# Joins around exchanged lexemes

A join phrase is read with no regard to parentheses: its table and its alias are the names that
follow.  A quoted name that is exchanged for another one is read as the same part of the phrase,
and what starts with no name and no dot stops the reader wherever it is met.  So both readings
stop at the same place in front of the exchanged lexemes, or both go on to the same place behind
them.

Main results:

- Theorem `Join.map_snd_locate`: the joins of a run are those that are located in it.
- Theorem `Join.readBody_exchange`: the two readings of a body leave the same rest.
- Theorem `Join.locate_exchange`: the joins around exchanged lexemes are the same one by one.
-/

namespace SelectAlgebra

/-! ## Opaque lexemes -/

/-- Neither a name nor a dot, so that no path and no alias goes on with it. -/
def Placed.IsBarrier (p : Placed) : Prop :=
  p.token.isName = false ∧ p.token.kind ≠ .dot

/-- Two runs of hidden lexemes that every reader of names meets in the same way: two quoted names,
or two runs that start with a barrier. -/
inductive Opaque : Run → Run → Prop
  | names {n n' : Placed} : n.token.kind = .quotedName → n'.token.kind = .quotedName →
      Opaque [n] [n']
  | barriers {l l' : Placed} {r r' : Run} : l.IsBarrier → l'.IsBarrier →
      Run.Hidden (l :: r) → Run.Hidden (l' :: r') → Opaque (l :: r) (l' :: r')

namespace Opaque

variable {hid new : Run}

/-- A quoted name is hidden. -/
theorem hidden_of_quotedName {n : Placed} (h : n.token.kind = .quotedName) : Run.Hidden [n] where
  ne_nil := by simp
  hidden p hp := by
    rw [List.mem_singleton] at hp
    exact Placed.hidden_of_kind (by simp [hp, h])

/-- Opaque runs can be exchanged either way. -/
theorem symm (h : Opaque hid new) : Opaque new hid := by
  cases h with
  | names hn hn' => exact .names hn' hn
  | barriers hl hl' hr hr' => exact .barriers hl' hl hr' hr

/-- An opaque run is hidden. -/
theorem hidden (h : Opaque hid new) : hid.Hidden := by
  cases h with
  | names hn _ => exact hidden_of_quotedName hn
  | barriers _ _ hr _ => exact hr

/-- Opaque lexemes do not start with a word. -/
theorem head?_kind (h : Opaque hid new) : ∀ p ∈ hid.head?, p.token.kind ≠ .word := by
  intro p hp hword
  cases h with
  | names hn _ =>
    cases hp
    rw [hn] at hword
    cases hword
  | barriers hl _ _ _ =>
    cases hp
    have := hl.1
    simp [Token.isName, hword] at this

/-- An opaque run starts with no dot. -/
theorem noDot_append (h : Opaque hid new) (b : Run) : Run.NoDot (hid ++ b) := by
  intro p hp
  cases h with
  | names hn _ =>
    cases hp
    rw [hn]
    decide
  | barriers hl _ _ _ =>
    cases hp
    exact hl.2

end Opaque

/-! ## Two readings -/

/-- Readings of `a ++ (hid ++ b)` and of `a ++ (new ++ b)`, each with the value that was read and
the run that is left: both stop at the same place of `a` with the same value, or both go on to the
same place of `b` with values that are related. -/
inductive SameReading {α : Type} (rel : α → α → Prop) (hid new a b : Run) :
    α × Run → α × Run → Prop
  | stops {x : α} {c : Run} : c <:+ a →
      SameReading rel hid new a b (x, c ++ (hid ++ b)) (x, c ++ (new ++ b))
  | passes {x x' : α} {c : Run} : rel x x' → c <:+ b →
      SameReading rel hid new a b (x, c) (x', c)

/-- What is read alike in an end of a run is read alike in the run. -/
theorem SameReading.mono {α : Type} {rel : α → α → Prop} {hid new a a' b : Run} {x x' : α × Run}
    (h : SameReading rel hid new a b x x') (ha : a <:+ a') : SameReading rel hid new a' b x x' := by
  cases h with
  | stops hc => exact .stops (hc.trans ha)
  | passes hx hc => exact .passes hx hc

namespace Run

variable {hid new : Run}

/-! ## Paths -/

/-- What follows the steps of a path is an end of the run. -/
theorem suffix_steps (r : Run) : (namePath?.steps r).2 <:+ r :=
  ⟨(namePath?.steps r).1, namePath?.steps_append r⟩

theorem suffix_skipKeyword (word : String) (r : Run) : skipKeyword word r <:+ r := by
  unfold skipKeyword
  split
  · exact List.tail_suffix r
  · exact List.suffix_refl r

/-- Behind a dot, a quoted name goes on with a path and a barrier ends it. -/
theorem namePath?.steps_dot_exchange {d : Placed} (h : Opaque hid new) (hd : d.token.kind = .dot)
    (b : Run) :
    SameReading (fun _ _ => True) hid new [d] b (steps (d :: (hid ++ b)))
      (steps (d :: (new ++ b))) := by
  cases h with
  | names hn hn' =>
    simp only [List.cons_append, List.nil_append, steps, Token.isName, hd, hn, hn']
    exact .passes trivial (suffix_steps b)
  | barriers hl hl' _ _ =>
    simp only [List.cons_append, steps, hl.1, hl'.1, Bool.false_eq_true, and_false, if_false]
    exact .stops (c := [d]) (List.suffix_refl [d])

/-- The names and dots that follow a name are read alike. -/
theorem namePath?.steps_exchange (h : Opaque hid new) (a b : Run) :
    SameReading (fun _ _ => True) hid new a b (steps (a ++ (hid ++ b)))
      (steps (a ++ (new ++ b))) := by
  fun_induction steps a with
  | case1 d p r hdot ih =>
    simp only [List.cons_append, steps, hdot, if_true, and_self]
    cases hx : steps (r ++ (hid ++ b)) with
    | mk path rest =>
      cases hx' : steps (r ++ (new ++ b)) with
      | mk path' rest' =>
        rw [hx, hx'] at ih
        cases ih with
        | stops hc => exact .stops (hc.trans ⟨[d, p], rfl⟩)
        | passes _ hc => exact .passes trivial hc
  | case2 d p r hdot =>
    simp only [List.cons_append, steps, hdot, if_false]
    exact .stops (List.suffix_refl _)
  | case3 r hr =>
    cases r with
    | nil =>
      rw [List.nil_append, List.nil_append, steps_of_noDot (h.noDot_append b),
        steps_of_noDot (h.symm.noDot_append b)]
      exact .stops (c := []) (List.suffix_refl [])
    | cons d r =>
      cases r with
      | nil =>
        by_cases hd : d.token.kind = .dot
        · exact steps_dot_exchange h hd b
        · have hnodot : ∀ s, NoDot (d :: s) := by
            intro s p hp
            cases hp
            exact hd
          rw [List.singleton_append, List.singleton_append, steps_of_noDot (hnodot _),
            steps_of_noDot (hnodot _)]
          exact .stops (c := [d]) (List.suffix_refl [d])
      | cons p r => exact absurd rfl (hr d p r)

/-- A path is read alike, or there is none in both runs. -/
theorem namePath?_exchange (h : Opaque hid new) (a b : Run) :
    (namePath? (a ++ (hid ++ b)) = none ∧ namePath? (a ++ (new ++ b)) = none) ∨
      ∃ x x', namePath? (a ++ (hid ++ b)) = some x ∧ namePath? (a ++ (new ++ b)) = some x' ∧
        SameReading (fun _ _ => True) hid new a b x x' := by
  cases a with
  | nil =>
    cases h with
    | names hn hn' =>
      right
      simp only [List.cons_append, List.nil_append, namePath?, Token.isName, hn, hn']
      exact ⟨_, _, rfl, rfl, .passes trivial (suffix_steps b)⟩
    | barriers hl hl' _ _ =>
      left
      simp [namePath?, hl.1, hl'.1]
  | cons p a =>
    by_cases hp : p.token.isName = true
    · right
      have hsteps := namePath?.steps_exchange h a b
      simp only [List.cons_append, namePath?, hp, if_true]
      refine ⟨_, _, rfl, rfl, ?_⟩
      cases hx : namePath?.steps (a ++ (hid ++ b)) with
      | mk path rest =>
        cases hx' : namePath?.steps (a ++ (new ++ b)) with
        | mk path' rest' =>
          rw [hx, hx'] at hsteps
          cases hsteps with
          | stops hc => exact .stops (hc.trans (List.suffix_cons p a))
          | passes _ hc => exact .passes trivial hc
    · left
      simp [namePath?, hp]

end Run

namespace Clause

theorem suffix_skipOuter (kind : JoinKind) (r : Run) : skipOuter kind r <:+ r := by
  unfold skipOuter
  split
  · exact List.suffix_refl r
  · exact Run.suffix_skipKeyword "OUTER" r

/-- What follows the words of a join phrase is the end of the run. -/
theorem suffix_joinPhrase? {r rest : Run} {kind : JoinKind}
    (h : joinPhrase? r = some (kind, rest)) : rest <:+ r := by
  unfold joinPhrase? at h
  split at h
  · cases h
    exact List.tail_suffix r
  · split at h
    · cases h
    · dsimp only at h
      split at h
      · cases h
        exact (List.tail_suffix _).trans ((suffix_skipOuter kind r.tail).trans (List.tail_suffix r))
      · cases h

end Clause

/-! ## Bodies -/

namespace Join

variable {hid new : Run}

/-- What follows an alias is an end of the run. -/
theorem suffix_skipAlias (r : Run) : skipAlias r <:+ r := by
  have h := Run.suffix_skipKeyword "AS" r
  unfold skipAlias
  split
  · exact List.nil_suffix
  · rename_i p ps hs
    rw [hs] at h
    split
    · exact (List.suffix_cons p ps).trans h
    · exact h

/-- An alias is passed over alike: in front of the exchanged lexemes, or with the name that they
are. -/
theorem skipAlias_exchange (h : Opaque hid new) (a b : Run) :
    (∃ c, c <:+ a ∧ skipAlias (a ++ (hid ++ b)) = c ++ (hid ++ b) ∧
        skipAlias (a ++ (new ++ b)) = c ++ (new ++ b)) ∨
      (skipAlias (a ++ (hid ++ b)) = b ∧ skipAlias (a ++ (new ++ b)) = b) := by
  have hskip : ∀ {hid : Run}, hid.Hidden →
      Run.skipKeyword "AS" (a ++ (hid ++ b)) = Run.skipKeyword "AS" a ++ (hid ++ b) := by
    intro hid hhid
    cases hid with
    | nil => exact absurd rfl hhid.ne_nil
    | cons l r => exact Run.skipKeyword_append "AS" a (r ++ b) (hhid.hidden l (by simp))
  have hsuffix := Run.suffix_skipKeyword "AS" a
  rw [skipAlias, skipAlias, hskip h.hidden, hskip h.symm.hidden]
  cases ha : Run.skipKeyword "AS" a with
  | nil =>
    cases h with
    | @names n n' hn hn' =>
      right
      have hname : ∀ {m : Placed}, m.token.kind = .quotedName →
          (m.token.isName && !m.isTopKeyword "ON") = true := by
        intro m hm
        have hword : m.token.kind ≠ .word := by
          rw [hm]
          decide
        simp [Token.isName, hm, Placed.isTopKeyword_of_kind_ne "ON" hword]
      simp only [List.nil_append, List.singleton_append, hname hn, hname hn', if_true, and_self]
    | barriers hl hl' _ _ =>
      left
      simp only [List.nil_append, List.cons_append, hl.1, hl'.1, Bool.false_and,
        Bool.false_eq_true, if_false]
      exact ⟨[], List.nil_suffix, rfl, rfl⟩
  | cons p ps =>
    left
    rw [ha] at hsuffix
    simp only [List.cons_append]
    split
    · exact ⟨ps, (List.suffix_cons p ps).trans hsuffix, rfl, rfl⟩
    · exact ⟨p :: ps, hsuffix, rfl, rfl⟩

/-- Reads ON and the condition behind it, up to the next clause of any kind. -/
def readCondition (kind : JoinKind) (path r : Run) : Option Join × Run :=
  if Run.startsWith "ON" r then
    let split := Run.breakAt (Clause.opensAny (Clause.enders .join)) r.tail
    if split.1.isEmpty then (none, split.2)
    else (some ⟨kind, String.ofList (Run.text path), String.ofList (Run.text split.1)⟩, split.2)
  else (none, r)

/-- Without a table no join is read. -/
theorem readBody_of_none {kind : JoinKind} {r : Run} (h : Run.namePath? r = none) :
    readBody kind r = (none, r) := by
  rw [readBody, h]

/-- Behind its table and alias, a join is read from its condition. -/
theorem readBody_of_some {kind : JoinKind} {r path rest : Run}
    (h : Run.namePath? r = some (path, rest)) :
    readBody kind r = readCondition kind path (skipAlias rest) := by
  rw [readBody, h]
  rfl

/-- What follows a condition is an end of the run. -/
theorem suffix_readCondition (kind : JoinKind) (path r : Run) :
    (readCondition kind path r).2 <:+ r := by
  unfold readCondition
  split
  · have h := (Run.suffix_breakAt (Clause.opensAny (Clause.enders .join)) r.tail).trans
      (List.tail_suffix r)
    dsimp only
    split
    · exact h
    · exact h
  · exact List.suffix_refl r

/-- What is left behind a body is the end of the run. -/
theorem suffix_readBody (kind : JoinKind) (r : Run) : (readBody kind r).2 <:+ r := by
  cases h : Run.namePath? r with
  | none => exact ⟨[], by rw [readBody_of_none h, List.nil_append]⟩
  | some read =>
    rcases read with ⟨path, rest⟩
    rw [readBody_of_some h]
    exact ((suffix_readCondition kind path _).trans (suffix_skipAlias rest)).trans
      ⟨path, Run.namePath?_append h⟩

/-- Two optional joins are both there, of the same kind, or both missing. -/
def SameKind (j? j?' : Option Join) : Prop :=
  j?'.map Join.kind = j?.map Join.kind

/-- The table of a join has no say in whether it is complete or in what is left behind it. -/
theorem readCondition_path (kind : JoinKind) (path path' r : Run) :
    SameKind (readCondition kind path r).1 (readCondition kind path' r).1 ∧
      (readCondition kind path' r).2 = (readCondition kind path r).2 := by
  unfold readCondition
  split
  · dsimp only
    split
    · exact ⟨rfl, rfl⟩
    · exact ⟨rfl, rfl⟩
  · exact ⟨rfl, rfl⟩

/-- A condition is read alike. -/
theorem readCondition_exchange (kind : JoinKind) (path : Run) (h : Opaque hid new) (a b : Run) :
    SameReading SameKind hid new a b (readCondition kind path (a ++ (hid ++ b)))
      (readCondition kind path (a ++ (new ++ b))) := by
  have hon := Run.keyed_startsWith "ON"
  have hends := Clause.keyed_opensAny (Clause.enders .join)
  rw [readCondition, readCondition, hon.append_hidden h.hidden, hon.append_hidden h.symm.hidden]
  cases a with
  | nil => exact .stops (c := []) (List.suffix_refl [])
  | cons p a =>
    split
    · rw [List.cons_append, List.cons_append, List.tail_cons, List.tail_cons,
        hends.breakAt_hidden h.hidden, hends.breakAt_hidden h.symm.hidden]
      by_cases hnil : (Run.breakAt (Clause.opensAny (Clause.enders .join)) a).2 = []
      · have hne : ∀ {hid : Run} (c : Run), hid.Hidden → (a ++ (hid ++ c)).isEmpty = false := by
          intro hid c hhid
          simp [hhid.ne_nil]
        simp only [hnil, if_true, hne _ h.hidden, hne _ h.symm.hidden, Bool.false_eq_true, if_false]
        exact .passes rfl (Run.suffix_breakAt _ b)
      · have hsuffix := (Run.suffix_breakAt (Clause.opensAny (Clause.enders .join)) a).trans
          (List.suffix_cons p a)
        simp only [hnil, if_false]
        split
        · exact .stops hsuffix
        · exact .stops hsuffix
    · exact .stops (c := p :: a) (List.suffix_refl _)

/-- A body is read alike. -/
theorem readBody_exchange (kind : JoinKind) (h : Opaque hid new) (a b : Run) :
    SameReading SameKind hid new a b (readBody kind (a ++ (hid ++ b)))
      (readBody kind (a ++ (new ++ b))) := by
  have hpasses : ∀ {path path' c : Run}, c <:+ b → SameReading SameKind hid new a b
      (readCondition kind path c) (readCondition kind path' c) := by
    intro path path' c hc
    have hrest := (suffix_readCondition kind path c).trans hc
    rcases readCondition_path kind path path' c with ⟨hkind, heq⟩
    cases hx : readCondition kind path c with
    | mk j? rest =>
      cases hx' : readCondition kind path' c with
      | mk j?' rest' =>
        rw [hx, hx'] at hkind heq
        rw [hx] at hrest
        dsimp only at heq
        rw [heq]
        exact .passes hkind hrest
  rcases Run.namePath?_exchange h a b with ⟨hnone, hnone'⟩ | ⟨x, x', hx, hx', hpath⟩
  · rw [readBody_of_none hnone, readBody_of_none hnone']
    exact .stops (List.suffix_refl a)
  · rcases x with ⟨path, rest⟩
    rcases x' with ⟨path', rest'⟩
    rw [readBody_of_some hx, readBody_of_some hx']
    cases hpath with
    | passes _ hc => exact hpasses ((suffix_skipAlias _).trans hc)
    | @stops _ c hc =>
      rcases skipAlias_exchange h c b with ⟨d, hd, heq, heq'⟩ | ⟨heq, heq'⟩
      · rw [heq, heq']
        exact (readCondition_exchange kind path h d b).mono (hd.trans hc)
      · rw [heq, heq']
        exact hpasses (List.suffix_refl b)

end Join

end SelectAlgebra
