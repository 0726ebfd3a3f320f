import Mathlib.Data.List.Forall2
import SelectAlgebra.Proofs.Statement.Spans

/-!
# Exchanging hidden lexemes

A lexeme is hidden when it is neither a bare word nor a comma or a semicolon outside parentheses.
The tests for clauses do not look past a hidden lexeme, so a run of hidden lexemes may be
exchanged for another one: every span that is cut out of the statement stays the same, moves, or
takes over the exchange.

Main results:

- Theorem `Run.Keyed.breakAt_hidden`: where a run is broken around hidden lexemes.
- Theorem `Clause.joinPhrase?_append`: a join phrase is read in front of a hidden lexeme.
- Theorems `Exchanged.body`, `Exchanged.segments` and `Exchanged.items`: parts of exchanged spans
  are exchanged.
-/

namespace SelectAlgebra

/-! ## Hidden lexemes -/

namespace Placed

/-- The lexeme is no bare word and no separator outside parentheses. -/
def Hidden (p : Placed) : Prop :=
  p.isTop .word = false ∧ p.isTop .comma = false ∧ p.isTop .semicolon = false

/-- A hidden token is no keyword outside parentheses. -/
theorem Hidden.isTopKeyword {p : Placed} (h : p.Hidden) (word : String) :
    p.isTopKeyword word = false := by
  rcases h with ⟨hword, -, -⟩
  cases hkey : p.isTopKeyword word with
  | false => rfl
  | true =>
    rcases isTopKeyword_iff.1 hkey with ⟨hdepth, htoken⟩
    simp [isTop, hdepth, Token.kind_of_isKeyword htoken] at hword

/-- A token inside parentheses is hidden. -/
theorem hidden_of_depth_pos {p : Placed} (h : 0 < p.depth) : p.Hidden := by
  have hdepth : p.depth ≠ 0 := by omega
  simp [Hidden, isTop, hdepth]

/-- A token that is no word, no comma and no semicolon is hidden. -/
theorem hidden_of_kind {p : Placed}
    (h : p.token.kind ≠ .word ∧ p.token.kind ≠ .comma ∧ p.token.kind ≠ .semicolon) :
    p.Hidden := by
  simp [Hidden, isTop, h]

end Placed

namespace Run

/-- The run is not empty and all of it is hidden. -/
structure Hidden (r : Run) : Prop where
  ne_nil : r ≠ []
  hidden : ∀ p ∈ r, p.Hidden

/-- The test does not look at a hidden lexeme or past one. -/
structure Keyed (p : Run → Bool) : Prop where
  nil : p [] = false
  append : ∀ (a : Run) {h : Placed} (r : Run), h.Hidden → p (a ++ h :: r) = p a

section Break

variable {p : Run → Bool} {hid : Run}

/-- Hidden tokens cut off what a keyed test looks at. -/
theorem Keyed.append_hidden (hp : Keyed p) (hhid : hid.Hidden) (a b : Run) :
    p (a ++ (hid ++ b)) = p a := by
  cases hid with
  | nil => exact absurd rfl hhid.ne_nil
  | cons h r => exact hp.append a (r ++ b) (hhid.hidden h (by simp))

/-- No keyed test holds at a hidden token. -/
theorem Keyed.free (hp : Keyed p) (h : ∀ x ∈ hid, x.Hidden) (b : Run) : Free p hid b := by
  induction hid with
  | nil => trivial
  | cons x hid ih =>
    constructor
    · have := hp.append [] (hid ++ b) (h x (by simp))
      rw [List.nil_append] at this
      rw [this, hp.nil]
    · exact ih fun y hy => h y (by simp [hy])

/-- A run is broken in front of hidden lexemes where it would be broken without them, and else
behind them. -/
theorem Keyed.breakAt_hidden (hp : Keyed p) (hhid : hid.Hidden) (a b : Run) :
    breakAt p (a ++ (hid ++ b)) =
      if (breakAt p a).2 = [] then (a ++ (hid ++ (breakAt p b).1), (breakAt p b).2)
      else ((breakAt p a).1, (breakAt p a).2 ++ (hid ++ b)) := by
  induction a with
  | nil =>
    rcases breakAt_spec p b with ⟨hfree, hstop⟩
    have hb := breakAt_append p b
    have hall : Free p (hid ++ (breakAt p b).1) (breakAt p b).2 := by
      rw [free_append]
      exact ⟨hp.free hhid.hidden _, hfree⟩
    have := breakAt_append_eq hall hstop
    rw [List.append_assoc, hb] at this
    simp [breakAt, this]
  | cons x a ih =>
    have hx := hp.append_hidden hhid (x :: a) b
    rw [List.cons_append] at hx
    rw [List.cons_append, breakAt, hx, ih, breakAt]
    by_cases hpx : p (x :: a) = true
    · simp [hpx]
    · simp only [hpx]
      by_cases hnil : (breakAt p a).2 = []
      · simp [hnil]
      · simp [hnil]

end Break

/-! ## Commas -/

/-- A comma outside parentheses stands at the start of the run. -/
def startsWithComma (r : Run) : Bool :=
  r.head?.any (·.isTop .comma)

/-- Starting with a comma is a keyed test. -/
theorem keyed_startsWithComma : Keyed startsWithComma where
  nil := rfl
  append a h r hh := by
    cases a with
    | nil => exact hh.2.1
    | cons x a => rfl

/-- A run that starts with a comma has a token. -/
theorem one_le_length_of_startsWithComma {r : Run} (h : startsWithComma r = true) :
    1 ≤ r.length := by
  cases r with
  | nil => cases h
  | cons x r => simp

/-- The first part of a list reaches to the first comma. -/
theorem segments_eq (r : Run) :
    segments r = (breakAt startsWithComma r).1 ::
      if (breakAt startsWithComma r).2.isEmpty then []
      else segments ((breakAt startsWithComma r).2.drop 1) := by
  induction r with
  | nil => rfl
  | cons x r ih =>
    rw [segments, List.splitOnP_cons_eq_if_modifyHead, breakAt]
    cases hx : x.isTop .comma with
    | true => simp [startsWithComma, hx, segments]
    | false =>
      rw [segments] at ih
      simp [startsWithComma, hx, ih]

/-! ## Tests for keywords -/

/-- Whether a run starts with a keyword is settled in front of a hidden token. -/
theorem startsWith_append {h : Placed} (word : String) (a r : Run) (hh : h.Hidden) :
    startsWith word (a ++ h :: r) = startsWith word a := by
  cases a with
  | nil => rw [List.nil_append, startsWith_cons, hh.isTopKeyword, startsWith_nil]
  | cons x a => rw [List.cons_append, startsWith_cons, startsWith_cons]

/-- Starting with a keyword is a keyed test. -/
theorem keyed_startsWith (word : String) : Keyed (startsWith word) where
  nil := startsWith_nil word
  append a _ r hh := startsWith_append word a r hh

/-- A keyword is passed over in front of a hidden token alone. -/
theorem skipKeyword_append {h : Placed} (word : String) (a r : Run) (hh : h.Hidden) :
    skipKeyword word (a ++ h :: r) = skipKeyword word a ++ h :: r := by
  rw [skipKeyword, skipKeyword, startsWith_append word a r hh]
  cases a with
  | nil => rfl
  | cons x a => split <;> rfl

end Run

namespace Clause

/-- Whether a run starts with two keywords is settled in front of a hidden token. -/
theorem startsWithPair_append {h : Placed} (first second : String) (a r : Run) (hh : h.Hidden) :
    startsWithPair first second (a ++ h :: r) = startsWithPair first second a := by
  rw [startsWithPair, startsWithPair, Run.startsWith_append first a r hh]
  cases a with
  | nil => rfl
  | cons x a =>
    rw [List.cons_append, List.tail_cons, List.tail_cons, Run.startsWith_append second a r hh]

/-- The kind of a join is read in front of a hidden token alone. -/
theorem joinKind?_append {h : Placed} (a r : Run) (hh : h.Hidden) :
    joinKind? (a ++ h :: r) = joinKind? a := by
  have hstarts : (fun k : JoinKind => Run.startsWith k.keyword (a ++ h :: r)) =
      fun k => Run.startsWith k.keyword a :=
    funext fun k => Run.startsWith_append k.keyword a r hh
  rw [joinKind?, joinKind?, hstarts]

/-- OUTER is passed over in front of a hidden token alone. -/
theorem skipOuter_append {h : Placed} (kind : JoinKind) (a r : Run) (hh : h.Hidden) :
    skipOuter kind (a ++ h :: r) = skipOuter kind a ++ h :: r := by
  unfold skipOuter
  split
  · rfl
  · exact Run.skipKeyword_append "OUTER" a r hh

/-- A join phrase is read in front of a hidden lexeme as if nothing followed. -/
theorem joinPhrase?_append {h : Placed} (a r : Run) (hh : h.Hidden) :
    joinPhrase? (a ++ h :: r) = (joinPhrase? a).map fun x => (x.1, x.2 ++ h :: r) := by
  have hjoin := fun b => Run.startsWith_append "JOIN" b r hh
  rw [joinPhrase?, joinPhrase?, hjoin, joinKind?_append a r hh]
  cases a with
  | nil => rfl
  | cons x a =>
    rw [List.cons_append, List.tail_cons, List.tail_cons]
    split
    · rfl
    · cases joinKind? (x :: a) with
      | none => rfl
      | some kind =>
        dsimp only
        rw [skipOuter_append kind a r hh, hjoin]
        split
        · rename_i hstarts
          have := Run.length_pos_of_startsWith hstarts
          rcases List.exists_cons_of_length_pos this with ⟨y, ys, hys⟩
          rw [hys]
          rfl
        · rfl

/-- The words of a join are read in front of hidden tokens alone. -/
theorem joinPhrase?_append_hidden {hid : Run} (hhid : hid.Hidden) (a b : Run) :
    joinPhrase? (a ++ (hid ++ b)) = (joinPhrase? a).map fun x => (x.1, x.2 ++ (hid ++ b)) := by
  cases hid with
  | nil => exact absurd rfl hhid.ne_nil
  | cons h r => exact joinPhrase?_append a (r ++ b) (hhid.hidden h (by simp))

/-- Opening a clause is a keyed test. -/
theorem keyed_opens (c : Clause) : Run.Keyed c.opens where
  nil := by cases c <;> rfl
  append a h r hh := by
    cases c with
    | join =>
      rw [opens, opens, joinPhrase?_append a r hh, Option.isSome_map]
    | condition | having => exact Run.startsWith_append _ a r hh
    | grouping | ordering => exact startsWithPair_append _ _ a r hh

/-- Opening one of several clauses is a keyed test. -/
theorem keyed_opensAny (cs : List Clause) : Run.Keyed (opensAny cs) where
  nil := by
    rw [opensAny, List.any_eq_false]
    intro c _
    rw [(keyed_opens c).nil]
    exact Bool.false_ne_true
  append a h r hh := by
    have hopens : (fun c : Clause => c.opens (a ++ h :: r)) = fun c => c.opens a :=
      funext fun c => (keyed_opens c).append a r hh
    rw [opensAny, opensAny, hopens]

/-- The words with which a clause opens are not cut off by the end of a run. -/
theorem phraseLength_le {c : Clause} {r : Run} (h : c.opens r = true) :
    c.phraseLength ≤ r.length := by
  have hpos : 0 < r.length := by
    cases r with
    | nil =>
      rw [(keyed_opens c).nil] at h
      cases h
    | cons x r => simp
  cases c with
  | join | condition | having => exact hpos
  | grouping | ordering =>
    rw [opens, startsWithPair, Bool.and_eq_true] at h
    have := Run.length_pos_of_startsWith h.2
    rw [List.length_tail] at this
    simp only [phraseLength]
    omega

end Clause

/-- The first span of a list reaches to the first comma. -/
theorem Span.segments_eq (s : Span) :
    s.segments = s.front Run.startsWithComma ::
      if (s.back Run.startsWithComma).run.isEmpty then []
      else ((s.back Run.startsWithComma).drop 1).segments := by
  rw [segments, Run.segments_eq, ofParts, front, back]
  cases h : (Run.breakAt Run.startsWithComma s.run).2 with
  | nil => rfl
  | cons x r => rfl

/-! ## Exchanged spans -/

/-- What becomes of a span of the statement when the hidden lexemes `hid` at place `place` are
exchanged for `new`: it ends in front of them, starts behind them, or has them inside. -/
inductive Exchanged (hid new : Run) (place : Nat) : Span → Span → Prop
  | before {s : Span} : s.stop ≤ place → Exchanged hid new place s s
  | behind (k : Nat) (r : Run) :
      Exchanged hid new place ⟨place + hid.length + k, r⟩ ⟨place + new.length + k, r⟩
  | around {start : Nat} {a : Run} (b : Run) : start + a.length = place →
      Exchanged hid new place ⟨start, a ++ (hid ++ b)⟩ ⟨start, a ++ (new ++ b)⟩

namespace Exchanged

variable {hid new : Run} {place : Nat} {s s' : Span} {p : Run → Bool} {c : Clause}

/-- A span around the exchanged lexemes has them. -/
theorem not_apart_around {start : Nat} {a : Run} (b : Run) (hplace : start + a.length = place)
    (hhid : hid.Hidden) : ¬ (⟨start, a ++ (hid ++ b)⟩ : Span).Apart place hid.length := by
  have hpos := List.length_pos_iff.2 hhid.ne_nil
  rintro (h | h)
  · simp only [Span.stop, List.length_append] at h
    omega
  · dsimp only at h
    omega

/-- A span that has none of the exchanged lexemes holds what it held. -/
theorem run_eq (h : Exchanged hid new place s s') (hhid : hid.Hidden)
    (hs : s.Apart place hid.length) : s'.run = s.run := by
  cases h with
  | before _ => rfl
  | behind k r => rfl
  | around b hplace => exact absurd hs (not_apart_around b hplace hhid)

/-- A span stays empty or not when hidden tokens in it are exchanged. -/
theorem isEmpty_run (h : Exchanged hid new place s s') (hhid : hid.Hidden) (hnew : new.Hidden) :
    s'.run.isEmpty = s.run.isEmpty := by
  cases h with
  | before _ => rfl
  | behind k r => rfl
  | around b hplace =>
    rw [Bool.eq_iff_iff]
    simp [hhid.ne_nil, hnew.ne_nil]

/-- The spans in front of where a keyed test holds differ as the whole spans do. -/
theorem front (h : Exchanged hid new place s s') (hp : Run.Keyed p) (hhid : hid.Hidden)
    (hnew : new.Hidden) : Exchanged hid new place (s.front p) (s'.front p) := by
  cases h with
  | before hs =>
    apply before
    have happ := congrArg List.length (Run.breakAt_append p s.run)
    rw [List.length_append] at happ
    simp only [Span.stop, Span.front] at hs ⊢
    omega
  | behind k r => exact behind k _
  | @around start a b hplace =>
    rw [Span.front, Span.front, hp.breakAt_hidden hhid, hp.breakAt_hidden hnew]
    by_cases hnil : (Run.breakAt p a).2 = []
    · rw [if_pos hnil, if_pos hnil]
      exact around _ hplace
    · rw [if_neg hnil, if_neg hnil]
      apply before
      have happ := congrArg List.length (Run.breakAt_append p a)
      rw [List.length_append] at happ
      simp only [Span.stop]
      omega

/-- The spans from where a keyed test holds on differ as the whole spans do. -/
theorem back (h : Exchanged hid new place s s') (hp : Run.Keyed p) (hhid : hid.Hidden)
    (hnew : new.Hidden) : Exchanged hid new place (s.back p) (s'.back p) := by
  cases h with
  | before hs =>
    apply before
    have happ := congrArg List.length (Run.breakAt_append p s.run)
    rw [List.length_append] at happ
    simp only [Span.stop, Span.back] at hs ⊢
    omega
  | behind k r =>
    rw [Span.back, Span.back, Nat.add_assoc _ k, Nat.add_assoc _ k]
    exact behind _ _
  | @around start a b hplace =>
    rw [Span.back, Span.back, hp.breakAt_hidden hhid, hp.breakAt_hidden hnew]
    by_cases hnil : (Run.breakAt p a).2 = []
    · rw [if_pos hnil, if_pos hnil]
      simp only [List.length_append]
      have hlen : ∀ n m : Nat, start + (a.length + (n + m)) = place + n + m := by omega
      rw [hlen, hlen]
      exact behind _ _
    · rw [if_neg hnil, if_neg hnil]
      apply around
      have happ := congrArg List.length (Run.breakAt_append p a)
      rw [List.length_append] at happ
      dsimp only
      omega

/-- The lexemes that pass a test can be dropped on both sides. -/
theorem drop {n : Nat} (h : Exchanged hid new place s s') (hp : Run.Keyed p)
    (hn : ∀ r, p r = true → n ≤ r.length) (hs : Run.StopsBy p s.run) (hhid : hid.Hidden) :
    Exchanged hid new place (s.drop n) (s'.drop n) := by
  cases h with
  | before hs =>
    apply before
    have happ := congrArg List.length (List.take_append_drop n s.run)
    rw [List.length_append] at happ
    simp only [Span.stop, Span.drop] at hs ⊢
    omega
  | behind k r =>
    rw [Span.drop, Span.drop, Nat.add_assoc _ k, Nat.add_assoc _ k]
    exact behind _ _
  | @around start a b hplace =>
    have hlen : n ≤ a.length := by
      apply hn
      rcases hs with hnil | hpass
      · simp [hhid.ne_nil] at hnil
      · rwa [hp.append_hidden hhid] at hpass
    rw [Span.drop, Span.drop, List.drop_append_of_le_length hlen,
      List.drop_append_of_le_length hlen, List.take_append_of_le_length hlen,
      List.take_append_of_le_length hlen]
    apply around
    rw [List.length_take, List.length_drop]
    dsimp only
    omega

/-- What a clause holds is exchanged. -/
theorem body (h : Exchanged hid new place s s') (c : Clause) (hhid : hid.Hidden)
    (hnew : new.Hidden) : Exchanged hid new place (s.body c) (s'.body c) := by
  have hback := h.back (Clause.keyed_opens c) hhid hnew
  have hstop : Run.StopsBy c.opens (s.back c.opens).run := (Run.breakAt_spec c.opens s.run).2
  have hdrop := hback.drop (Clause.keyed_opens c) (fun _ => Clause.phraseLength_le) hstop hhid
  exact hdrop.front (Clause.keyed_opensAny c.enders) hhid hnew

/-- The only item of a predicate is exchanged. -/
theorem whole (h : Exchanged hid new place s s') (hhid : hid.Hidden) (hnew : new.Hidden) :
    List.Forall₂ (Exchanged hid new place) s.whole s'.whole := by
  rw [Span.whole, Span.whole, h.isEmpty_run hhid hnew]
  split
  · exact .nil
  · exact .cons h .nil

/-- The spans between commas are exchanged one by one. -/
theorem segments (h : Exchanged hid new place s s') (hhid : hid.Hidden) (hnew : new.Hidden) :
    List.Forall₂ (Exchanged hid new place) s.segments s'.segments := by
  induction hlen : s.run.length using Nat.strongRecOn generalizing s s' with
  | ind n ih =>
    have hfront := h.front Run.keyed_startsWithComma hhid hnew
    have hback := h.back Run.keyed_startsWithComma hhid hnew
    have hempty := hback.isEmpty_run hhid hnew
    rw [s.segments_eq, s'.segments_eq, hempty]
    by_cases hnil : (s.back Run.startsWithComma).run.isEmpty = true
    · rw [if_pos hnil, if_pos hnil]
      exact .cons hfront .nil
    · rw [if_neg hnil, if_neg hnil]
      have hstop : Run.StopsBy Run.startsWithComma (s.back Run.startsWithComma).run :=
        (Run.breakAt_spec Run.startsWithComma s.run).2
      have hdrop := hback.drop Run.keyed_startsWithComma
        (fun _ => Run.one_le_length_of_startsWithComma) hstop hhid
      have hle := Run.breakAt_length Run.startsWithComma s.run
      have hpos : 0 < (s.back Run.startsWithComma).run.length := by
        rw [List.isEmpty_iff] at hnil
        exact List.length_pos_iff.2 hnil
      refine .cons hfront (ih _ ?_ hdrop rfl)
      simp only [Span.drop, Span.back, List.length_drop] at hpos ⊢
      omega

/-- The items of a list are exchanged one by one. -/
theorem items (h : Exchanged hid new place s s') (hhid : hid.Hidden) (hnew : new.Hidden) :
    List.Forall₂ (Exchanged hid new place) s.items s'.items := by
  refine List.rel_filter ?_ (h.segments hhid hnew)
  intro t t' ht
  dsimp only
  rw [ht.isEmpty_run hhid hnew]

end Exchanged

end SelectAlgebra
