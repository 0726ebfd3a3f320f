import SelectAlgebra.Proofs.Checked.Entries

/-!
# Qualifiers by their places

A qualifier is a name and a dot, directly followed by a name or a star.  Which tokens belong to
qualifiers is said here place by place, for all tokens at once, and so is the text that is left
without them.  Taking the qualifiers of a run away from left to right comes to the same.

Main results:

- Theorem `SelectItem.map_token_unqualify`: the tokens that stay.
- Theorem `SelectItem.text_unqualify`: the text that stays.
- Theorem `Token.startsQualifier_drop_withoutQualifiers`: no qualifier stays, and none comes up.
-/

namespace SelectAlgebra

namespace Token

/-- The tokens start with a qualifier: a name and a dot, directly followed by a name or a star. -/
def startsQualifier : List Token → Bool
  | name :: dot :: next :: _ =>
    name.isName && dot.kind == .dot && (next.isName || next.kind == .star)
  | _ => false

/-- The token at the index is the name or the dot of a qualifier. -/
def inQualifier (ts : List Token) (i : Nat) : Bool :=
  startsQualifier (ts.drop i) || (0 < i && startsQualifier (ts.drop (i - 1)))

/-- The tokens that belong to no qualifier. -/
def withoutQualifiers (ts : List Token) : List Token :=
  ts.zipIdx.flatMap fun x => if inQualifier ts x.2 then [] else [x.1]

end Token

open Token (startsQualifier inQualifier withoutQualifiers)

/-- The text of a run without its qualifiers, from the first token on: without the name and the dot
of each, and without the blanks that stand directly behind these two. -/
def Run.unqualifiedText (r : Run) : List Char :=
  let ts := r.map (·.token)
  r.zipIdx.flatMap fun x =>
    (if x.2 = 0 ∨ inQualifier ts (x.2 - 1) then [] else x.1.gap) ++
      if inQualifier ts x.2 then [] else x.1.token.text

/-! ## Going through a list with its indices -/

namespace Token

variable {t n d : Token} {ts : List Token}

/-! ## Places of qualifiers -/

@[simp]
theorem inQualifier_zero (ts : List Token) : inQualifier ts 0 = startsQualifier ts := by
  simp [inQualifier]

/-- Behind a token that starts no qualifier the places are as without the token. -/
theorem inQualifier_cons_succ (h : startsQualifier (t :: ts) = false) (i : Nat) :
    inQualifier (t :: ts) (i + 1) = inQualifier ts i := by
  cases i with
  | zero => simp [inQualifier, h]
  | succ i => rfl

/-- No qualifier starts with a dot. -/
theorem startsQualifier_dot (h : d.kind = .dot) : startsQualifier (d :: ts) = false := by
  have hname : d.isName = false := by simp [isName, h]
  rcases ts with - | ⟨t, - | ⟨u, ts⟩⟩
  · rfl
  · rfl
  · simp [startsQualifier, hname]

/-- Behind a qualifier the places are as without it. -/
theorem inQualifier_cons_cons_succ (h : startsQualifier (n :: d :: ts) = true) (i : Nat) :
    inQualifier (n :: d :: ts) (i + 2) = inQualifier ts i := by
  have hdot : startsQualifier (d :: ts) = false := by
    cases ts with
    | nil => cases h
    | cons u ts =>
      simp only [startsQualifier, Bool.and_eq_true, beq_iff_eq] at h
      exact startsQualifier_dot h.1.2
  rw [← inQualifier_cons_succ hdot]
  rfl

theorem inQualifier_cons_cons_one (h : startsQualifier (n :: d :: ts) = true) :
    inQualifier (n :: d :: ts) 1 = true := by
  simp [inQualifier, h]

/-! ## The tokens that stay -/

/-- A token at which no qualifier starts stays. -/
theorem withoutQualifiers_cons (h : startsQualifier (t :: ts) = false) :
    withoutQualifiers (t :: ts) = t :: withoutQualifiers ts := by
  rw [withoutQualifiers, List.flatMap_zipIdx_cons, inQualifier_zero, h]
  simp only [inQualifier_cons_succ h]
  rfl

/-- A qualifier is taken away with its dot. -/
theorem withoutQualifiers_cons_cons (h : startsQualifier (n :: d :: ts) = true) :
    withoutQualifiers (n :: d :: ts) = withoutQualifiers ts := by
  rw [withoutQualifiers, List.flatMap_zipIdx_cons, List.flatMap_zipIdx_cons, inQualifier_zero, h,
    inQualifier_cons_cons_one h]
  simp only [inQualifier_cons_cons_succ h]
  rfl

/-- The tokens can be gone through with their qualifiers taken away one by one. -/
@[elab_as_elim]
theorem qualifierInduction {motive : List Token → Prop} (nil : motive [])
    (keep : ∀ t ts, startsQualifier (t :: ts) = false → motive ts → motive (t :: ts))
    (drop : ∀ n d ts, startsQualifier (n :: d :: ts) = true → motive ts → motive (n :: d :: ts)) :
    ∀ ts, motive ts
  | [] => nil
  | [t] => keep t [] rfl nil
  | n :: d :: ts =>
    if h : startsQualifier (n :: d :: ts) = true then
      drop n d ts h (qualifierInduction nil keep drop ts)
    else
      keep n (d :: ts) (Bool.eq_false_iff.2 h) (qualifierInduction nil keep drop (d :: ts))

/-- The kind of the first token does not change, but for the kind of name. -/
theorem any_head?_withoutQualifiers (ts : List Token) :
    (withoutQualifiers ts).head?.any (fun t => t.isName || t.kind == .star) =
        ts.head?.any (fun t => t.isName || t.kind == .star) ∧
      (withoutQualifiers ts).head?.any (·.kind == .dot) = ts.head?.any (·.kind == .dot) := by
  induction ts using qualifierInduction with
  | nil => exact ⟨rfl, rfl⟩
  | keep t ts h ih =>
    rw [withoutQualifiers_cons h]
    exact ⟨rfl, rfl⟩
  | drop n d ts h ih =>
    rw [withoutQualifiers_cons_cons h]
    cases ts with
    | nil => cases h
    | cons u ts =>
      simp only [startsQualifier, Bool.and_eq_true, beq_iff_eq] at h
      obtain ⟨⟨hn, -⟩, hu⟩ := h
      have hdot : ∀ t : Token, (t.isName || t.kind == .star) = true → (t.kind == .dot) = false := by
        intro t ht
        simp only [isName, Bool.or_eq_true, beq_iff_eq] at ht
        rcases ht with (ht | ht) | ht <;> simp [ht]
      rw [ih.1, ih.2]
      simp [hn, hu, hdot u hu, hdot n (by simp [hn])]

/-- No qualifier stays, and none comes up where one was taken away. -/
theorem startsQualifier_drop_withoutQualifiers (ts : List Token) (i : Nat) :
    startsQualifier ((withoutQualifiers ts).drop i) = false := by
  induction ts using qualifierInduction generalizing i with
  | nil => cases i <;> rfl
  | drop n d ts h ih =>
    rw [withoutQualifiers_cons_cons h]
    exact ih i
  | keep t ts h ih =>
    rw [withoutQualifiers_cons h]
    cases i with
    | succ i => exact ih i
    | zero =>
      -- a qualifier at the start would have been one before
      apply Bool.eq_false_iff.2
      intro hstarts
      rw [List.drop_zero] at hstarts
      have hdot := (any_head?_withoutQualifiers ts).2
      cases ts with
      | nil => cases hstarts
      | cons d ts =>
        have hd : d.kind = .dot := by
          cases hw : withoutQualifiers (d :: ts) with
          | nil =>
            rw [hw] at hstarts
            cases hstarts
          | cons d' us =>
            rw [hw] at hstarts hdot
            cases us with
            | nil => cases hstarts
            | cons u us =>
              simp only [startsQualifier, Bool.and_eq_true] at hstarts
              simpa [hstarts.1.2] using hdot
        rw [withoutQualifiers_cons (startsQualifier_dot hd)] at hstarts
        have hnext := (any_head?_withoutQualifiers ts).1
        cases hw : withoutQualifiers ts with
        | nil =>
          rw [hw] at hstarts
          cases hstarts
        | cons u us =>
          rw [hw] at hstarts hnext
          cases ts with
          | nil => cases hw
          | cons u' ts =>
            simp only [startsQualifier, Bool.and_eq_true] at hstarts
            have hu : (u'.isName || u'.kind == .star) = true := by
              simpa [hstarts.2] using hnext.symm
            simp [startsQualifier, hstarts.1.1, hd, hu] at h

end Token

/-! ## Runs -/

namespace Run

/-- The blanks in front of a run. -/
def headGap (r : Run) : List Char :=
  (r.head?.map fun p => p.gap).getD []

/-- The source of a run is the gap in front of it and its text. -/
theorem flatMap_source (r : Run) : (r.flatMap fun p => p.source) = headGap r ++ text r := by
  cases r with
  | nil => rfl
  | cons p r => exact List.append_assoc _ _ _

/-- The text of a run is its first token, the gap behind it and the rest. -/
theorem text_cons_eq (p : Placed) (r : Run) :
    text (p :: r) = p.token.text ++ (headGap r ++ text r) := by
  rw [text, flatMap_source]

variable {p d : Placed} {r : Run}

/-- A token at which no qualifier starts stays with the gap behind it. -/
theorem unqualifiedText_cons (h : startsQualifier ((p :: r).map (·.token)) = false) :
    unqualifiedText (p :: r) = p.token.text ++ (headGap r ++ unqualifiedText r) := by
  rw [List.map_cons] at h
  cases r with
  | nil =>
    rw [List.map_nil] at h
    simp [unqualifiedText, headGap, h]
  | cons q r =>
    rw [List.map_cons] at h
    simp only [unqualifiedText, headGap, List.map_cons, List.flatMap_zipIdx_cons,
      Token.inQualifier_cons_succ h, Token.inQualifier_zero, h, Nat.add_sub_cancel]
    simp

/-- A qualifier is left out with its dot and the gaps behind both. -/
theorem unqualifiedText_cons_cons (h : startsQualifier ((p :: d :: r).map (·.token)) = true) :
    unqualifiedText (p :: d :: r) = unqualifiedText r := by
  rw [List.map_cons, List.map_cons] at h
  cases r with
  | nil => cases h
  | cons q r =>
    rw [List.map_cons] at h
    simp only [unqualifiedText, List.map_cons, List.flatMap_zipIdx_cons, Token.inQualifier_zero,
      Token.inQualifier_cons_cons_succ h, Token.inQualifier_cons_cons_one h, h,
      Nat.add_sub_cancel]
    simp

/-- A token by itself stays. -/
theorem unqualifiedText_singleton (p : Placed) : unqualifiedText [p] = p.token.text := by
  rw [unqualifiedText_cons rfl]
  exact List.append_nil _

/-- The gap in front of a run is no part of its text without qualifiers. -/
theorem unqualifiedText_withGap (gap : List Char) (r : Run) :
    unqualifiedText (SelectItem.withGap gap r) = unqualifiedText r := by
  cases r with
  | nil => rfl
  | cons p r => simp [unqualifiedText, SelectItem.withGap]

end Run

namespace SelectItem

open Run (headGap unqualifiedText)

/-- Whether a run starts with a qualifier is a matter of its tokens. -/
theorem startsWithQualifier_eq (r : Run) :
    startsWithQualifier r = startsQualifier (r.map (·.token)) := by
  match r with
  | [] | [_] | [_, _] => simp [startsWithQualifier, startsQualifier]
  | _ :: _ :: _ :: _ => rfl

/-- A token at which no qualifier starts stays where it is. -/
theorem unqualify_cons_of_not {p : Placed} {r : Run}
    (h : startsQualifier ((p :: r).map (·.token)) = false) :
    unqualify (p :: r) = p :: unqualify r := by
  rw [unqualify_cons, startsWithQualifier_eq, h, if_neg Bool.false_ne_true]

/-- What follows a qualifier takes over the gap in front of it. -/
theorem unqualify_cons_cons {n d : Placed} {r : Run}
    (h : startsQualifier ((n :: d :: r).map (·.token)) = true) :
    unqualify (n :: d :: r) = withGap n.gap (unqualify r) := by
  rw [unqualify_cons, startsWithQualifier_eq, if_pos h, List.tail_cons]

/-- A run can be gone through with its qualifiers taken away one by one. -/
@[elab_as_elim]
theorem unqualifyInduction {motive : Run → Prop} (nil : motive [])
    (keep : ∀ p r, startsQualifier ((p :: r).map (·.token)) = false →
      unqualify (p :: r) = p :: unqualify r → motive r → motive (p :: r))
    (drop : ∀ n d r, startsQualifier ((n :: d :: r).map (·.token)) = true →
      unqualify (n :: d :: r) = withGap n.gap (unqualify r) → motive r → motive (n :: d :: r)) :
    ∀ r, motive r
  | [] => nil
  | [p] => keep p [] rfl rfl nil
  | n :: d :: r =>
    if h : startsQualifier ((n :: d :: r).map (·.token)) = true then
      drop n d r h (unqualify_cons_cons h) (unqualifyInduction nil keep drop r)
    else
      have hnot := Bool.eq_false_iff.2 h
      keep n (d :: r) hnot (unqualify_cons_of_not hnot) (unqualifyInduction nil keep drop (d :: r))

@[simp]
theorem map_token_withGap (gap : List Char) (r : Run) :
    (withGap gap r).map (·.token) = r.map (·.token) := by
  cases r <;> rfl

/-- The gap that is put in front of a run stands there. -/
theorem headGap_withGap {gap : List Char} {r : Run} (h : r ≠ []) :
    headGap (withGap gap r) = gap := by
  cases r with
  | nil => exact absurd rfl h
  | cons p r => rfl

/-- The tokens that stay. -/
theorem map_token_unqualify (r : Run) :
    (unqualify r).map (·.token) = withoutQualifiers (r.map (·.token)) := by
  induction r using unqualifyInduction with
  | nil => rfl
  | keep p r h heq ih =>
    rw [heq, List.map_cons, ih]
    exact (Token.withoutQualifiers_cons h).symm
  | drop n d r h heq ih =>
    rw [heq, map_token_withGap, ih]
    exact (Token.withoutQualifiers_cons_cons h).symm

/-- The gap in front of a run stays. -/
theorem headGap_unqualify (r : Run) : headGap (unqualify r) = headGap r := by
  cases r with
  | nil => rfl
  | cons p r =>
    rw [unqualify_cons]
    split
    · -- behind the dot of a qualifier something stands
      rename_i hqualifier
      have hne : r.tail ≠ [] := by
        rcases r with - | ⟨d, - | ⟨q, r⟩⟩ <;> simp_all [startsWithQualifier]
      rw [headGap_withGap (unqualify_ne_nil hne)]
      rfl
    · rfl

/-- The text that stays. -/
theorem text_unqualify (r : Run) : Run.text (unqualify r) = unqualifiedText r := by
  induction r using unqualifyInduction with
  | nil => rfl
  | keep p r h heq ih =>
    rw [heq, Run.text_cons_eq, headGap_unqualify, ih, Run.unqualifiedText_cons h]
  | drop n d r h heq ih =>
    rw [heq, text_withGap, ih, Run.unqualifiedText_cons_cons h]

end SelectItem

/-! ## Runs one behind the other -/

namespace Run

variable {r s : Run}

/-- Where no dot stands, no qualifier goes on from one run into the next. -/
theorem startsQualifier_append (hne : r ≠ []) (hlast : ∀ p ∈ r.getLast?, p.token.kind ≠ .dot)
    (hhead : ∀ p ∈ s.head?, p.token.kind ≠ .dot) :
    startsQualifier ((r ++ s).map (·.token)) = startsQualifier (r.map (·.token)) := by
  match r with
  | [p] =>
    match s with
    | [] => rfl
    | [d] => rfl
    | d :: _ :: _ =>
      have hd : d.token.kind ≠ .dot := hhead d rfl
      simp [startsQualifier, hd]
  | [p, q] =>
    have hq : q.token.kind ≠ .dot := hlast q rfl
    cases s with
    | nil => rfl
    | cons d s => simp [startsQualifier, hq]
  | _ :: _ :: _ :: _ => rfl

/-- Where no dot stands, the texts without qualifiers of two runs add up. -/
theorem unqualifiedText_append (hne : r ≠ []) (hlast : ∀ p ∈ r.getLast?, p.token.kind ≠ .dot)
    (hhead : ∀ p ∈ s.head?, p.token.kind ≠ .dot) :
    unqualifiedText (r ++ s) = unqualifiedText r ++ (headGap s ++ unqualifiedText s) := by
  induction r using SelectItem.unqualifyInduction with
  | nil => exact absurd rfl hne
  | keep p r hnot _ ih =>
    have hstarts := startsQualifier_append hne hlast hhead
    rw [hnot] at hstarts
    rw [List.cons_append] at hstarts ⊢
    rw [unqualifiedText_cons hstarts, unqualifiedText_cons hnot]
    by_cases hr : r = []
    · subst hr
      simp [headGap, unqualifiedText]
    · rw [ih hr fun q hq => hlast q (by rwa [List.getLast?_cons_of_ne_nil hr])]
      cases r with
      | nil => exact absurd rfl hr
      | cons q r => simp [headGap]
  | drop n d r hstarts _ ih =>
    have hr : r ≠ [] := by
      rintro rfl
      cases hstarts
    have hboth := startsQualifier_append hne hlast hhead
    rw [hstarts] at hboth
    rw [List.cons_append, List.cons_append] at hboth ⊢
    rw [unqualifiedText_cons_cons hboth, unqualifiedText_cons_cons hstarts]
    apply ih hr
    intro q hq
    apply hlast
    rwa [List.getLast?_cons_of_ne_nil (by simp), List.getLast?_cons_of_ne_nil hr]

/-- A run has more text with a token behind it, unless a dot comes before or makes up the token. -/
theorem unqualifiedText_ne_append {z : Placed} (hne : r ≠ [])
    (hlast : ∀ p ∈ r.getLast?, p.token.kind ≠ .dot) (hz : z.token.kind ≠ .dot)
    (htext : z.token.text ≠ []) : unqualifiedText r ≠ unqualifiedText (r ++ [z]) := by
  have happend := unqualifiedText_append (s := [z]) hne hlast (by simpa using hz)
  intro heq
  rw [happend, unqualifiedText_singleton, List.self_eq_append_right, List.append_eq_nil_iff] at heq
  exact htext heq.2

end Run

end SelectAlgebra
