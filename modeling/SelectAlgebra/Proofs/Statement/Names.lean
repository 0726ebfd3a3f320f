import SelectAlgebra.Proofs.Statement.Break

/-!
# Names, paths and aliases

The names of a grammar are bare words other than its keywords, and quoted names.  A path is a
name and any further names after dots; an alias is a name, AS and a name, or nothing.  Where such
a name stands, no clause opens.

Main results:

- Theorem `IsNamePath.namePath?_append`: a path is read up to where no dot follows.
- Theorem `free_opensAny_of_isFree`: no clause opens where only names and dots stand.
-/

namespace SelectAlgebra

namespace Token

/-- The words of the grammar. -/
def keywords : List String :=
  ["SELECT", "FROM", "WHERE", "JOIN", "INNER", "LEFT", "RIGHT", "FULL", "OUTER", "ON", "GROUP",
    "ORDER", "BY", "HAVING", "ASC", "DESC"]

/-- The token is a name and its text is neither AS nor a keyword. -/
def IsFreeName (t : Token) : Prop :=
  t.isName = true ∧ ∀ word ∈ "AS" :: keywords, Text.sameLetters t.text word.toList = false

instance (t : Token) : Decidable t.IsFreeName :=
  inferInstanceAs (Decidable (_ ∧ _))

/-- A free name is no keyword. -/
theorem IsFreeName.isKeyword {t : Token} {word : String} (h : t.IsFreeName)
    (hword : word ∈ "AS" :: keywords) : t.isKeyword word = false := by
  simp [Token.isKeyword, h.2 word hword]

/-- A keyword could be a name by its kind. -/
theorem isName_of_isKeyword {t : Token} {word : String} (h : t.isKeyword word = true) :
    t.isName = true := by
  simp [isName, kind_of_isKeyword h]

end Token

/-- The words that open a clause are keywords. -/
theorem Clause.mem_keywords_of_mem_openers {c : Clause} {word : String} (h : word ∈ c.openers) :
    word ∈ Token.keywords := by
  revert h
  cases c <;> revert word <;> decide

namespace Placed

/-- What is no word is no keyword. -/
theorem isTopKeyword_of_kind_ne {p : Placed} (word : String) (h : p.token.kind ≠ .word) :
    p.isTopKeyword word = false := by
  simp [isTopKeyword, Token.isKeyword, h]

/-- A free name is no keyword outside parentheses. -/
theorem isTopKeyword_of_isFreeName {p : Placed} {word : String} (h : p.token.IsFreeName)
    (hword : word ∈ "AS" :: Token.keywords) : p.isTopKeyword word = false := by
  simp [isTopKeyword, h.isKeyword hword]

/-- The lexeme is none of the words with which a clause opens, where it could be one. -/
def OpensNone (p : Placed) : Prop :=
  ∀ c : Clause, ∀ word ∈ c.openers, p.isTopKeyword word = false

/-- A free name opens no clause and no join. -/
theorem opensNone_of_isFreeName {p : Placed} (h : p.token.IsFreeName) : p.OpensNone :=
  fun _ _ hword => isTopKeyword_of_isFreeName h
    (List.mem_cons_of_mem "AS" (Clause.mem_keywords_of_mem_openers hword))

/-- What is no word opens no clause and no join. -/
theorem opensNone_of_kind_ne {p : Placed} (h : p.token.kind ≠ .word) : p.OpensNone :=
  fun _ word _ => isTopKeyword_of_kind_ne word h

/-- Nothing inside parentheses opens a clause or a join. -/
theorem opensNone_of_depth_pos {p : Placed} (h : 0 < p.depth) : p.OpensNone := by
  intro c word _
  have hdepth : p.depth ≠ 0 := by omega
  simp [isTopKeyword, hdepth]

/-- A keyword that opens no clause does not open one. -/
theorem opensNone_of_isTopKeyword {p : Placed} {word : String} (h : p.isTopKeyword word = true)
    (hword : ∀ c : Clause, ∀ o ∈ c.openers, Text.lower word.toList ≠ Text.lower o.toList) :
    p.OpensNone :=
  fun c o ho => isTopKeyword_of_ne h (hword c o ho)

end Placed

namespace Run

/-- Where no token opens a clause, none of several clauses opens. -/
theorem free_opensAny_of_opensNone {cs : List Clause} {a : Run} (b : Run)
    (h : ∀ p ∈ a, p.OpensNone) : Free (Clause.opensAny cs) a b :=
  Clause.free_opensAny b fun p hp c _ => h p hp c

/-- Where no token opens a clause, a given clause does not open. -/
theorem free_opens_of_opensNone {c : Clause} {a : Run} (b : Run) (h : ∀ p ∈ a, p.OpensNone) :
    Free c.opens a b :=
  Clause.free_opens b fun p hp => h p hp c

/-! ## Paths -/

/-- A name and any further names after dots. -/
inductive IsDotted : Run → Prop
  | name {p : Placed} : p.token.isName = true → IsDotted [p]
  | step {p d : Placed} {r : Run} : p.token.isName = true → d.token.kind = .dot → IsDotted r →
      IsDotted (p :: d :: r)

/-- A free name and any further free names after dots. -/
inductive IsNamePath : Run → Prop
  | name {p : Placed} : p.token.IsFreeName → IsNamePath [p]
  | step {p d : Placed} {r : Run} : p.token.IsFreeName → d.token.kind = .dot → IsNamePath r →
      IsNamePath (p :: d :: r)

/-- No dot stands at the start of the run. -/
def NoDot (r : Run) : Prop :=
  ∀ p ∈ r.head?, p.token.kind ≠ .dot

/-- A run that starts with a name starts with no dot. -/
theorem noDot_of_isName {p : Placed} {r : Run} (h : p.token.isName = true) : NoDot (p :: r) := by
  intro q hq hdot
  obtain rfl : p = q := by simpa using hq
  simp [Token.isName, hdot] at h

/-- Without a dot there is no further step of a path. -/
theorem namePath?.steps_of_noDot {r : Run} (h : NoDot r) : steps r = ([], r) := by
  match r with
  | [] | [_] => rfl
  | d :: p :: r =>
    have hd : d.token.kind ≠ .dot := h d rfl
    simp [steps, hd]

/-- A name that no dot follows is a path, also when it is a keyword. -/
theorem namePath?_cons {p : Placed} {r : Run} (hp : p.token.isName = true) (hr : NoDot r) :
    namePath? (p :: r) = some ([p], r) := by
  simp [namePath?, hp, namePath?.steps_of_noDot hr]

namespace IsDotted

variable {path rest : Run}

/-- A path is a name and what is read behind it. -/
theorem exists_steps (h : IsDotted path) (hrest : NoDot rest) :
    ∃ p r, path = p :: r ∧ p.token.isName = true ∧ namePath?.steps (r ++ rest) = (r, rest) := by
  induction h with
  | name hp => exact ⟨_, [], rfl, hp, namePath?.steps_of_noDot hrest⟩
  | @step p d r hp hd h ih =>
    rcases ih with ⟨q, s, rfl, hq, hsteps⟩
    refine ⟨p, d :: q :: s, rfl, hp, ?_⟩
    simp [namePath?.steps, hd, hq, hsteps]

/-- A path is read up to where no dot follows. -/
theorem namePath?_append (h : IsDotted path) (hrest : NoDot rest) :
    namePath? (path ++ rest) = some (path, rest) := by
  rcases h.exists_steps hrest with ⟨p, r, rfl, hp, hsteps⟩
  simp [namePath?, hp, hsteps]

end IsDotted

namespace IsNamePath

variable {path rest : Run}

/-- A path of free names is a path of names. -/
theorem isDotted (h : IsNamePath path) : IsDotted path := by
  induction h with
  | name hp => exact .name hp.1
  | step hp hd _ ih => exact .step hp.1 hd ih

/-- A path is read up to where no dot follows. -/
theorem namePath?_append (h : IsNamePath path) (hrest : NoDot rest) :
    namePath? (path ++ rest) = some (path, rest) :=
  h.isDotted.namePath?_append hrest

/-- A path of free names starts with one. -/
theorem exists_cons (h : IsNamePath path) : ∃ p r, path = p :: r ∧ p.token.IsFreeName := by
  cases h with
  | name hp => exact ⟨_, _, rfl, hp⟩
  | step hp _ _ => exact ⟨_, _, rfl, hp⟩

/-- No token of a path opens a clause or a join. -/
theorem opensNone (h : IsNamePath path) : ∀ p ∈ path, p.OpensNone := by
  induction h with
  | name hp => simpa using Placed.opensNone_of_isFreeName hp
  | step hp hd _ ih =>
    simp only [List.mem_cons, forall_eq_or_imp]
    exact ⟨Placed.opensNone_of_isFreeName hp, Placed.opensNone_of_kind_ne (by simp [hd]), ih⟩

end IsNamePath

/-! ## Aliases -/

/-- Nothing, a name, or AS and a name. -/
inductive IsAlias : Run → Prop
  | none : IsAlias []
  | name {n : Placed} : n.token.IsFreeName → IsAlias [n]
  | asName {a n : Placed} : a.isTopKeyword "AS" = true → n.token.IsFreeName → IsAlias [a, n]

/-- What follows an alias starts with no dot if it did so by itself. -/
theorem IsAlias.noDot_append {label r : Run} (h : IsAlias label) (hr : NoDot r) :
    NoDot (label ++ r) := by
  cases h with
  | none => exact hr
  | name hn => exact noDot_of_isName hn.1
  | asName ha hn =>
    exact noDot_of_isName (Token.isName_of_isKeyword (Placed.isTopKeyword_iff.1 ha).2)

/-- No token of an alias opens a clause or a join. -/
theorem IsAlias.opensNone {r : Run} (h : IsAlias r) : ∀ p ∈ r, p.OpensNone := by
  cases h with
  | none => simp
  | name hn => simpa using Placed.opensNone_of_isFreeName hn
  | asName ha hn =>
    simp only [List.mem_cons, List.not_mem_nil, or_false, forall_eq_or_imp, forall_eq]
    refine ⟨Placed.opensNone_of_isTopKeyword ha ?_, Placed.opensNone_of_isFreeName hn⟩
    intro c
    cases c <;> decide

end Run

end SelectAlgebra
