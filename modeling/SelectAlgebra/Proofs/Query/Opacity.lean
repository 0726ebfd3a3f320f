import SelectAlgebra.Proofs.Comment.Edit
import SelectAlgebra.Proofs.Query.Unchanged

/-!
# Quoted and enclosed text is opaque

What a quoted token or a pair of parentheses holds has no say in how a text is taken apart.  An
edit of it leaves a query with as many entries in each list, of which only those change that are
read from the edited part.

Main results:

- Theorem `Alike.exists_runs`: alike lexemes are placed as opaque lexemes.
- Theorem `Run.ofText_of_sameOutside`: the statement of an edited text.
- Theorem `Query.ofText?_edit`: the query of an edited text.
-/

namespace SelectAlgebra

/-! ## Placing alike lexemes -/

namespace Lexeme

/-- A quoted token is no parenthesis. -/
theorem not_isParen_of_quoted {l : Lexeme}
    (h : l.token.kind = .string ∨ l.token.kind = .quotedName) : ¬ l.IsParen := by
  rintro (hl | hr)
  · rw [hl] at h
    rcases h with h | h <;> cases h
  · rw [hr] at h
    rcases h with h | h <;> cases h

/-- A string is hidden. -/
theorem hidden_of_string {l : Lexeme} {depth : Nat} (h : l.token.kind = .string) :
    Run.Hidden [⟨l, depth⟩] where
  ne_nil := by simp
  hidden p hp := by
    rw [List.mem_singleton] at hp
    exact Placed.hidden_of_kind (by simp [hp, h])

/-- Two parentheses and what they enclose, with the parentheses at the given depth. -/
def placePair (depth : Nat) (left : Lexeme) (inner : List Lexeme) (right : Lexeme) : Run :=
  ⟨left, depth⟩ :: (Run.place (depth + 1) inner ++ [⟨right, depth⟩])

section Pair

variable {left right : Lexeme} {inner : List Lexeme} {depth : Nat}

/-- Two parentheses and what they enclose are placed by themselves. -/
theorem place_pair (hleft : left.token.kind = .leftParen) (hright : right.token.kind = .rightParen)
    (hinner : Balanced inner) (rs : List Lexeme) :
    Run.place depth (left :: (inner ++ [right]) ++ rs) =
      placePair depth left inner right ++ Run.place depth rs := by
  rw [List.cons_append, List.append_assoc, List.singleton_append,
    Run.place_enclosed hleft hright hinner, placePair]
  simp only [List.cons_append, List.append_assoc, List.nil_append]

/-- A pair of parentheses hides what it encloses. -/
theorem hidden_placePair (hleft : left.token.kind = .leftParen)
    (hright : right.token.kind = .rightParen) (hinner : Balanced inner) :
    Run.Hidden (placePair depth left inner right) where
  ne_nil := by simp [placePair]
  hidden p hp := by
    rw [placePair, List.mem_cons, List.mem_append, List.mem_singleton] at hp
    rcases hp with rfl | hp | rfl
    · exact Placed.hidden_of_kind (by simp [hleft])
    · have hle : depth + 1 ≤ p.depth := by
        apply Run.le_depth_of_mem_place hinner
        rwa [Nat.zero_add]
      exact Placed.hidden_of_depth_pos (by omega)
    · exact Placed.hidden_of_kind (by simp [hright])

/-- Two parentheses are two lexemes more than what they enclose. -/
theorem length_placePair : (placePair depth left inner right).length = inner.length + 2 := by
  rw [placePair, List.length_cons, List.length_append, Run.length_place, List.length_singleton]

end Pair

/-- Alike lexemes are placed as opaque lexemes, and leave the depth as it is. -/
theorem Alike.exists_runs {ms ms' : List Lexeme} (h : Alike ms ms') (depth : Nat) :
    ∃ hid new, Opaque hid new ∧ hid.length = ms.length ∧
      ∀ rs, Run.place depth (ms ++ rs) = hid ++ Run.place depth rs ∧
        Run.place depth (ms' ++ rs) = new ++ Run.place depth rs := by
  cases h with
  | @quoted l l' hkind hsame =>
    refine ⟨[⟨l, depth⟩], [⟨l', depth⟩], ?_, rfl, fun rs => ⟨?_, ?_⟩⟩
    · rcases hkind with hstring | hname
      · have hbarrier : ∀ {m : Lexeme}, m.token.kind = .string →
            (⟨m, depth⟩ : Placed).IsBarrier := by
          intro m hm
          simp [Placed.IsBarrier, Token.isName, hm]
        rw [hstring] at hsame
        exact .barriers (hbarrier hstring) (hbarrier hsame) (hidden_of_string hstring)
          (hidden_of_string hsame)
      · exact .names hname (hsame.trans hname)
    · exact Run.place_other (not_isParen_of_quoted hkind)
    · rw [← hsame] at hkind
      exact Run.place_other (not_isParen_of_quoted hkind)
  | @enclosed left right left' right' inner inner' hleft hleft' hright hright' hinner hinner' =>
    refine ⟨placePair depth left inner right, placePair depth left' inner' right', ?_, ?_,
      fun rs => ⟨place_pair hleft hright hinner rs, place_pair hleft' hright' hinner' rs⟩⟩
    · have hbarrier : ∀ {m : Lexeme}, m.token.kind = .leftParen →
          (⟨m, depth⟩ : Placed).IsBarrier := by
        intro m hm
        simp [Placed.IsBarrier, Token.isName, hm]
      exact .barriers (hbarrier hleft) (hbarrier hleft') (hidden_placePair hleft hright hinner)
        (hidden_placePair hleft' hright' hinner')
    · rw [length_placePair]
      simp

end Lexeme

/-! ## The statement of an edited text -/

namespace Run

/-- The statement of an edited text: either the edit is behind the statement, or the statement has
opaque lexemes in the place of others. -/
theorem ofText_of_sameOutside {cs cs' : List Char} {ls ms ms' rs : List Lexeme}
    (h : Lexeme.SameOutside (Comment.strip cs) cs' ls ms ms' rs) :
    ∃ hid new, Opaque hid new ∧ hid.length = ms.length ∧
      ((ofText cs' = ofText cs ∧ (ofText cs).length ≤ ls.length) ∨
        ∃ a b, a.length = ls.length ∧ ofText cs = a ++ (hid ++ b) ∧
          ofText cs' = a ++ (new ++ b)) := by
  rcases h.alike.exists_runs (Lexeme.leftOpen 0 ls) with ⟨hid, new, hsides, hlength, hplace⟩
  refine ⟨hid, new, hsides, hlength, ?_⟩
  have hrun : ofText cs = (place 0 ls ++ (hid ++ place (Lexeme.leftOpen 0 ls) rs)).takeWhile
      fun p => !p.isTop .semicolon := by
    rw [ofText, h.ofText, place_append_leftOpen, (hplace rs).1]
  have hrun' : ofText cs' = (place 0 ls ++ (new ++ place (Lexeme.leftOpen 0 ls) rs)).takeWhile
      fun p => !p.isTop .semicolon := by
    rw [ofText, h.ofText_strip, place_append_leftOpen, (hplace rs).2]
  have hpass : ∀ {r : Run}, r.Hidden → ∀ p ∈ r, (!p.isTop .semicolon) = true := by
    intro r hr p hp
    rw [(hr.hidden p hp).2.2]
    rfl
  rw [List.takeWhile_append] at hrun hrun'
  split at hrun
  · rename_i hall
    rw [if_pos hall, List.takeWhile_append_of_pos (hpass hsides.symm.hidden)] at hrun'
    rw [List.takeWhile_append_of_pos (hpass hsides.hidden)] at hrun
    exact Or.inr ⟨_, _, length_place 0 ls, hrun, hrun'⟩
  · rename_i hall
    rw [if_neg hall] at hrun'
    left
    rw [hrun, hrun']
    refine ⟨rfl, ?_⟩
    have := (List.takeWhile_sublist (fun p : Placed => !p.isTop .semicolon)
      (l := place 0 ls)).length_le
    rwa [length_place] at this

end Run

/-! ## The query of an edited text -/

/-- What can be exchanged for something alike starts with no word. -/
theorem Lexeme.Alike.head_kind {l : Lexeme} {ls ms : List Lexeme} (h : Lexeme.Alike (l :: ls) ms) :
    l.token.kind ≠ .word := by
  intro hword
  cases h with
  | quoted hkind _ =>
    rw [hword] at hkind
    rcases hkind with hkind | hkind <;> cases hkind
  | enclosed hleft _ _ _ _ _ =>
    rw [hword] at hleft
    cases hleft

namespace Query

/-- Opaque lexemes in the place of others leave a query. -/
theorem ofRun?_exchange {r r' hid new a b : Run} (h : Opaque hid new) (hr : r = a ++ (hid ++ b))
    (hr' : r' = a ++ (new ++ b)) (o : Outline r)
    (hselect : o.opener.token.isKeyword "SELECT" = true) (hsolid : r.Solid) (hsolid' : r'.Solid)
    {q : Query} (hq : ofParts? o.parts = some q) :
    ∃ q', ofRun? r' = some q' ∧ UnchangedApart o a.length hid.length q q' := by
  subst hr hr'
  cases a with
  | nil =>
    have hhead := h.head?_kind o.opener (by
      have := congrArg List.head? o.run_eq
      cases hid with
      | nil => exact absurd rfl h.hidden.ne_nil
      | cons p ps => exact this)
    exact absurd (Token.kind_of_isKeyword hselect) hhead
  | cons p a =>
    have hp : p.token.isKeyword "SELECT" = true := by
      rw [(List.cons.inj o.run_eq).1]
      exact hselect
    rcases o.exists_exchange h.hidden h.symm.hidden h.head?_kind h.symm.head?_kind hp with ⟨o'⟩
    have hparts := o.exchangedParts h.hidden h.symm.hidden h.head?_kind h.symm.head?_kind o'
    rcases ofParts?_of_exchangedParts h hparts hsolid hsolid' hq with ⟨q', hq', hsame⟩
    have hopener : o'.opener = p := (List.cons.inj o'.run_eq).1.symm
    refine ⟨q', ?_, hsame⟩
    rw [ofRun?, o'.ofRun?_eq (by rw [hopener]; exact hp)]
    exact hq'

/-- An edit of a text that starts with SELECT leaves this word. -/
theorem startsWithSelect_of_sameOutside {text : String} {cs' : List Char}
    {ls ms ms' rs : List Lexeme} (h : StartsWithSelect text)
    (hsame : Lexeme.SameOutside (Comment.strip text.toList) cs' ls ms ms' rs) :
    StartsWithSelect (String.ofList cs') := by
  rcases h.exists_cons with ⟨l, tail, htext, hselect⟩
  rw [hsame.ofText] at htext
  cases ls with
  | nil =>
    have hword := Token.kind_of_isKeyword hselect
    cases ms with
    | nil => cases hsame.alike
    | cons m ms =>
      rcases List.cons.inj htext with ⟨rfl, -⟩
      exact absurd hword hsame.alike.head_kind
  | cons m ls =>
    rcases List.cons.inj htext with ⟨rfl, -⟩
    rcases hsame.reads with ⟨rest, hreads⟩
    refine ⟨m, ?_, hselect⟩
    rw [String.toList_ofList, hreads.ofText]
    rfl

/-- An edit of what a quoted token or a pair of parentheses holds, in a text without its comments,
leaves a query in which only entries change that are read from the edited part.  So does every
text that starts with SELECT and that is the edited text when the comments are taken out of
both. -/
theorem ofText?_edit {text : String} {q : Query} {first count : Nat} {cs' : List Char}
    (h : ofText? text = some q) (o : Outline (Run.ofText text.toList))
    (e : Lexeme.Edit (Comment.strip text.toList) first count cs') :
    ∃ q', ofText? (String.ofList cs') = some q' ∧ UnchangedApart o first count q q' ∧
      ∀ text', StartsWithSelect text' → Comment.strip text'.toList = Comment.strip cs' →
        ofText? text' = some q' := by
  rcases exists_outline_of_ofText? h with ⟨hselect, -⟩
  have hq : ofParts? o.parts = some q := by
    rw [← ofText?_eq_ofParts? hselect o]
    exact h
  rcases e.exists_lexemes (Comment.strip_strip _) with ⟨ls, ms, ms', rs, rfl, rfl, hsame⟩
  rcases Run.ofText_of_sameOutside hsame with ⟨hid, new, hsides, hlength, hruns⟩
  have hopener := o.isKeyword_opener hselect
  have hsolid := Run.solid_ofText text.toList
  have hrun : ∃ q', ofRun? (Run.ofText cs') = some q' ∧
      UnchangedApart o ls.length ms.length q q' := by
    rcases hruns with ⟨hrun', hle⟩ | ⟨a, b, ha, hr, hr'⟩
    · obtain ⟨q', hq', hun⟩ := ofParts?_of_exchangedParts hsides
        (o.exchangedParts_self hle) hsolid hsolid hq
      rw [hlength] at hun
      refine ⟨q', ?_, hun⟩
      rw [hrun', ofRun?, o.ofRun?_eq hopener]
      exact hq'
    · obtain ⟨q', hq', hun⟩ := ofRun?_exchange hsides hr hr' o hopener hsolid
        (Run.solid_ofText cs') hq
      rw [hlength, ha] at hun
      exact ⟨q', hq', hun⟩
  rcases hrun with ⟨q', hq', hun⟩
  have hall : ∀ text', StartsWithSelect text' →
      Comment.strip text'.toList = Comment.strip cs' → ofText? text' = some q' := by
    intro text' hselect' hstrip
    rw [ofText?_eq_ofRun? hselect', Run.ofText, hstrip]
    exact hq'
  refine ⟨q', ?_, hun, hall⟩
  apply hall
  · exact startsWithSelect_of_sameOutside hselect hsame
  · rw [String.toList_ofList]

/-- A text that ends in a string. -/
def endsInString : String :=
  "SELECT a, f(b) FROM t LEFT JOIN u ON u.k = t.k WHERE c = 'x'"

/-- Keywords, a comma, a semicolon, a quote and a comment mark in the string change nothing but the
condition. -/
theorem ofText?_edit_condition :
    ∃ (o : Outline (Run.ofText endsInString.toList)) (q' : Query),
      ofText? "SELECT a, f(b) FROM t LEFT JOIN u ON u.k = t.k WHERE c = ' FROM s, JOIN; ''--'" =
          some q' ∧
        UnchangedApart o 23 1
          ⟨false, ["t"], ["a", "f(b)"], ["c = 'x'"], [⟨.left, "u", "u.k = t.k"⟩], [], [], []⟩
          q' := by
  have hquery : ofText? endsInString =
      some ⟨false, ["t"], ["a", "f(b)"], ["c = 'x'"], [⟨.left, "u", "u.k = t.k"⟩], [], [], []⟩ := by
    decide +kernel
  have hlast : ∀ c ∈ (Comment.strip endsInString.toList).getLast?, Text.isBlank c = false := by
    decide +kernel
  have hlexemes : ∃ ls, Lexeme.ofText (Comment.strip endsInString.toList) =
        ls ++ [⟨[' '], ⟨.string, Token.inQuotes '\x27' ['x']⟩⟩] ∧
      ls.length = 23 ∧
      String.ofList (Lexeme.sourceAll ls ++ ([' '] ++
          (Token.inQuotes '\x27' " FROM s, JOIN; '--".toList ++ []))) =
        "SELECT a, f(b) FROM t LEFT JOIN u ON u.k = t.k WHERE c = ' FROM s, JOIN; ''--'" := by
    refine ⟨(Lexeme.ofText (Comment.strip endsInString.toList)).dropLast, ?_, ?_, ?_⟩
    all_goals decide +kernel
  rcases exists_outline_of_ofText? hquery with ⟨-, o, -⟩
  rcases hlexemes with ⟨ls, hls, hlength, htext⟩
  have hreads := (Lexeme.sourceAll_ofText hlast).2
  rw [hls] at hreads
  obtain ⟨q', hq', hun, -⟩ :=
    ofText?_edit hquery o (.quoted " FROM s, JOIN; '--".toList hreads rfl rfl)
  rw [htext] at hq'
  rw [hlength] at hun
  exact ⟨o, q', hq', hun⟩

end Query

end SelectAlgebra
