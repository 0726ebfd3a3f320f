import Mathlib.Data.List.TakeWhile
import SelectAlgebra.Proofs.Checked.Statement
import SelectAlgebra.Proofs.Statement.Names
import SelectAlgebra.Query.OfText

/-!
# Entries with checked indices

The entries of a query are read from ranges of tokens.  A table may be a name path that is read
past the end of its item, which is then refused; an alias is looked for from the end of its item;
and the text of a column is put together token by token.

Main results:

- Theorem `Statement.Shows.tableName?_eq`: the table of an item of the FROM list.
- Theorem `Statement.Shows.selectItem_eq`: the column of a select item.
-/

namespace SelectAlgebra.Checked

namespace Statement

variable (st : Statement)

/-- The text of a range as a predicate, unless it is empty. -/
def predicate (start stop : Nat) : Access (List String) := do
  let text ← st.textOf start stop
  .ok (if text.isEmpty then [] else [String.ofList text])

/-! ## Tables -/

/-- The first word of the text of a range. -/
def firstWord? (start stop : Nat) : Access (Option (List Char)) := do
  let text ← st.textOf start stop
  .ok (Text.words text).head?

/-- The table of an item of the FROM list. -/
def tableName? (start stop : Nat) : Access (Option (List Char)) := do
  match ← st.namePath? start with
  | some pathStop =>
    if pathStop ≤ stop then
      let text ← st.textOf start pathStop
      .ok (some text)
    else st.firstWord? start stop
  | none => st.firstWord? start stop

/-! ## Select items -/

/-- The index of the last token of an item, if it is a name behind an operand. -/
def aliasAtEnd? (start stop : Nat) : Access (Option Nat) :=
  if stop - start < 2 then .ok none
  else do
    let lastIndex ← sub stop 1
    let last ← get st.tokens lastIndex
    let previousIndex ← sub stop 2
    let previous ← get st.tokens previousIndex
    if last.token.isName && !SelectItem.isReserved last.token &&
        SelectItem.endsOperand previous.token then
      let depth ← get st.depths lastIndex
      .ok (if depth = 0 then some lastIndex else none)
    else .ok none

/-- The index at which the alias of a select item starts: an AS behind the first token, or the last
token if it is a name behind an operand. -/
def aliasStart? (start stop : Nat) : Access (Option Nat) := do
  match ← find (start + 1) stop (st.keywordAt · "AS") with
  | some i => .ok (some i)
  | none => st.aliasAtEnd? start stop

/-- What has been written of a column: its text, where the last token written stops, and where the
first qualifier behind it starts. -/
structure Output where
  text : List Char
  cursor : Option Nat
  gapStop : Option Nat

/-- The text to be written in front of a token that starts at the offset. -/
def Output.gap (source : List Char) (start : Nat) (out : Output) : Access (List Char) :=
  match out.cursor with
  | none => .ok []
  | some c => slice source c (out.gapStop.getD start)

/-- Passes over a qualifier, or writes a token and the text in front of it. -/
def itemStep (tokens : List LocatedToken) (i : Nat) (out : Output) :
    Access (Option (Nat × Output)) := do
  let t ← get tokens i
  if t.token.isName && tokens[i + 1]?.any (·.token.kind == .dot) &&
      tokens[i + 2]?.any (fun u => u.token.isName || u.token.kind == .star) then
    .ok (some (i + 2, { out with gapStop := some (out.gapStop.getD t.start) }))
  else
    let gap ← out.gap st.source t.start
    .ok (some (i + 1, ⟨out.text ++ (gap ++ t.token.text), some t.stop, none⟩))

/-- The column of a select item. -/
def selectItem (start stop : Nat) : Access (List Char) := do
  let label ← st.aliasStart? start stop
  let tokens ← range st.tokens start (label.getD stop)
  let out ← loop tokens.length (st.itemStep tokens) 0 ⟨[], none, none⟩
  .ok out.2.text

end Statement

end SelectAlgebra.Checked

namespace SelectAlgebra

/-! ## Name paths past the end of an item -/

/-- A path that stops with a last dot goes on with the name that follows. -/
def Run.Overruns (rest next : Run) : Prop :=
  rest.length = 1 ∧ rest.all (·.token.kind == .dot) ∧ next.head?.any (·.token.isName)

instance (rest next : Run) : Decidable (Run.Overruns rest next) :=
  inferInstanceAs (Decidable (_ ∧ _))

/-- Behind a dot, a path goes on with the name that follows. -/
theorem Run.namePath?.steps_cons_cases (d : Placed) (next : Run) :
    (¬ Overruns [d] next ∧ steps (d :: next) = ([], d :: next)) ∨
      (Overruns [d] next ∧ (steps (d :: next)).2.length < next.length) := by
  cases next with
  | nil =>
    left
    refine ⟨?_, rfl⟩
    rintro ⟨-, -, hname⟩
    cases hname
  | cons n ns =>
    by_cases hstep : d.token.kind = .dot ∧ n.token.isName = true
    · right
      have hlength := congrArg List.length (steps_append ns)
      rw [List.length_append] at hlength
      refine ⟨⟨rfl, by simp [hstep.1], by simp [hstep.2]⟩, ?_⟩
      simp only [steps, hstep, and_self, if_true, List.length_cons]
      omega
    · left
      constructor
      · rintro ⟨-, hdot, hname⟩
        exact hstep ⟨by simpa using hdot, by simpa using hname⟩
      · simp [steps, hstep]

/-- In front of a run without a dot at its start, a path is read as if it stood alone, or goes on
past its end. -/
theorem Run.namePath?.steps_append_cases {s next : Run} (h : NoDot next) :
    (¬ Overruns (steps s).2 next ∧ steps (s ++ next) = ((steps s).1, (steps s).2 ++ next)) ∨
      (Overruns (steps s).2 next ∧ (steps (s ++ next)).2.length < next.length) := by
  fun_induction steps s with
  | case1 d p r hstep ih =>
    have hwhole : steps (d :: p :: r ++ next) =
        (d :: p :: (steps (r ++ next)).1, (steps (r ++ next)).2) := by
      simp [steps, hstep]
    rw [hwhole]
    rcases ih with ⟨hinside, heq⟩ | hover
    · exact Or.inl ⟨hinside, by rw [heq]⟩
    · exact Or.inr hover
  | case2 d p r hstop =>
    left
    constructor
    · rintro ⟨hlength, -⟩
      simp at hlength
    · simp [steps, hstop]
  | case3 s hshort =>
    -- a run that is no longer than one lexeme: only a dot can go on
    cases s with
    | nil =>
      left
      refine ⟨?_, steps_of_noDot h⟩
      rintro ⟨hlength, -⟩
      cases hlength
    | cons d r =>
      cases r with
      | nil => exact steps_cons_cases d next
      | cons p r => exact absurd rfl (hshort d p r)

/-! ## Qualifiers at the start of a run -/

namespace SelectItem

/-- A name, a dot, and a name or a star stand at the start of the run. -/
def startsWithQualifier (r : Run) : Bool :=
  r.head?.any (·.token.isName) && (r.drop 1).head?.any (·.token.kind == .dot) &&
    (r.drop 2).head?.any fun q => q.token.isName || q.token.kind == .star

/-- Qualifiers are taken away from the front of a run on. -/
theorem unqualify_cons (p : Placed) (r : Run) :
    unqualify (p :: r) =
      if startsWithQualifier (p :: r) then withGap p.gap (unqualify r.tail)
      else p :: unqualify r := by
  match r with
  | [] => simp [unqualify, startsWithQualifier]
  | [d] => simp [unqualify, startsWithQualifier]
  | d :: q :: r =>
    rw [unqualify]
    simp [startsWithQualifier, and_assoc]

theorem text_withGap (gap : List Char) (r : Run) : Run.text (withGap gap r) = Run.text r := by
  cases r <;> rfl

theorem withGap_withGap (gap gap' : List Char) (r : Run) :
    withGap gap (withGap gap' r) = withGap gap r := by
  cases r <;> rfl

end SelectItem

/-! ## What is left to write -/

namespace Checked.Statement.Output

open SelectItem (withGap text_withGap withGap_withGap)

/-- How the rest of a column is written behind an output, when the next lexeme starts at the
offset: without the gap of its first lexeme if nothing has been written, with all gaps behind the
last token written, and with the gap of the first qualifier passed over. -/
inductive Pending (source : List Char) (start : Nat) : Output → (Run → List Char) → Prop
  | first {text : List Char} {gapStop : Option Nat} :
      Pending source start ⟨text, none, gapStop⟩ Run.text
  | behind {text : List Char} :
      Pending source start ⟨text, some start, none⟩ fun r => r.flatMap (·.source)
  | passed {text gap : List Char} {c stop : Nat} : slice source c stop = .ok gap →
      Pending source start ⟨text, some c, some stop⟩ fun r => (withGap gap r).flatMap (·.source)

namespace Pending

variable {source : List Char} {start stop : Nat} {out : Output} {write : Run → List Char}

theorem write_nil (h : out.Pending source start write) : write [] = [] := by
  cases h <;> rfl

/-- A token is written behind the gap that is pending. -/
theorem exists_gap (h : out.Pending source start write) {p : Placed}
    (hgap : slice source start stop = .ok p.gap) :
    ∃ gap, out.gap source stop = .ok gap ∧
      ∀ r, write (p :: r) = (gap ++ p.token.text) ++ r.flatMap (·.source) := by
  cases h with
  | first => exact ⟨[], rfl, fun r => rfl⟩
  | behind => exact ⟨p.gap, hgap, fun r => rfl⟩
  | passed hslice => exact ⟨_, hslice, fun r => rfl⟩

/-- A qualifier that is passed over leaves its gap, unless one has been passed over before. -/
theorem exists_passed (h : out.Pending source start write) {p : Placed}
    (hgap : slice source start stop = .ok p.gap) (next : Nat) :
    ∃ write', ({ out with gapStop := some (out.gapStop.getD stop) } : Output).Pending source next
        write' ∧ ∀ r, write (withGap p.gap r) = write' r := by
  cases h with
  | first => exact ⟨_, .first, text_withGap p.gap⟩
  | behind => exact ⟨_, .passed hgap, fun r => rfl⟩
  | passed hslice =>
    refine ⟨_, .passed hslice, fun r => ?_⟩
    exact congrArg (List.flatMap fun x : Placed => x.source) (withGap_withGap _ p.gap r)

end Pending

end Checked.Statement.Output

namespace Checked.Statement.Shows

variable {st : Statement} {r next item : Run} {i : Nat}

section

variable (h : st.Shows r)

include h

/-! ## Tables and predicates -/

/-- The predicate of a range is that of its run. -/
theorem predicate_eq (hi : r.drop i = item ++ next) :
    st.predicate i (i + item.length) = .ok (Query.predicates item) := by
  rw [predicate, h.textOf_eq hi, ok_bind, Query.predicates]
  have hsolid : item.Solid := h.solid.of_subset fun p hp =>
    List.drop_subset i r (hi ▸ List.mem_append_left next hp)
  cases item with
  | nil => rfl
  | cons p ps =>
    rcases Run.text_cons hsolid (List.cons_ne_nil p ps) with ⟨c, cs, htext, -⟩
    rw [htext]
    rfl

/-- The first word of a range is that of its run. -/
theorem firstWord?_eq (hi : r.drop i = item ++ next) :
    st.firstWord? i (i + item.length) = .ok (Text.words (Run.text item)).head? := by
  rw [firstWord?, h.textOf_eq hi, ok_bind]

/-- The table of an item that a run without a dot at its start follows. -/
theorem tableName?_eq (hi : r.drop i = item ++ next) (hitem : item ≠ []) (hnext : next.NoDot) :
    st.tableName? i (i + item.length) = .ok (Query.tableName? item next) := by
  rw [tableName?, h.namePath?_eq, hi, ok_bind, h.firstWord?_eq hi]
  rcases List.exists_cons_of_ne_nil hitem with ⟨p, s, rfl⟩
  have hlength := congrArg List.length hi
  have hlt := Run.lt_length_of_drop hi
  rw [List.length_drop, List.length_append] at hlength
  rw [List.cons_append, Run.namePath?, Query.tableName?, Run.namePath?]
  by_cases hname : p.token.isName = true
  · rw [if_pos hname, if_pos hname]
    dsimp only [Option.map_some]
    rcases Run.namePath?.steps_append_cases (s := s) hnext with ⟨hinside, heq⟩ | ⟨hover, hpast⟩
    · have hpath : r.drop i = (p :: (Run.namePath?.steps s).1) ++
          ((Run.namePath?.steps s).2 ++ next) := by
        rw [hi, List.cons_append, List.cons_append, ← List.append_assoc,
          Run.namePath?.steps_append]
      have hsteps := congrArg List.length (Run.namePath?.steps_append s)
      rw [List.length_append] at hsteps
      rw [heq, Run.placeOf_eq (by omega) hpath, if_pos (by simp only [List.length_cons]; omega),
        h.textOf_eq hpath, ok_bind]
      exact congrArg Except.ok (if_neg hinside).symm
    · have hplace : ¬ Run.placeOf r (Run.namePath?.steps (s ++ next)).2 ≤ i + (p :: s).length := by
        rw [Run.placeOf]
        omega
      rw [if_neg hplace]
      exact congrArg Except.ok (if_pos hover).symm
  · rw [if_neg hname, if_neg hname]
    rfl

/-! ## Aliases -/

/-- A keyword is looked for inside of a range. -/
theorem find_keyword (hi : r.drop i = item ++ next) (hle : i ≤ r.length) (word : String) :
    find i (i + item.length) (st.keywordAt · word) =
      .ok (if item.any (·.isTopKeyword word) then
        some (i + (item.takeWhile fun p => !p.isTopKeyword word).length) else none) := by
  have hlength := congrArg List.length hi
  rw [List.length_drop, List.length_append] at hlength
  -- the search does not look past the range, so the run may be cut off there
  have hcut : (r.take (i + item.length)).length = i + item.length := by
    rw [List.length_take]
    omega
  have htest : ∀ j < (r.take (i + item.length)).length,
      st.keywordAt j word = .ok (Run.startsWith word ((r.take (i + item.length)).drop j)) := by
    intro j hj
    obtain ⟨n, hn⟩ : ∃ n, i + item.length - j = n + 1 :=
      Nat.exists_eq_add_one.2 (by omega)
    rw [h.keywordAt_eq, List.drop_take, hn]
    cases r.drop j <;> rfl
  have hitem : (r.take (i + item.length)).drop i = item := by
    rw [List.drop_take, hi, Nat.add_sub_cancel_left, List.take_left]
  have hfind := find_eq htest (by omega : i ≤ _)
  have hbreak : Run.breakAt (Run.startsWith word) item =
      (item.takeWhile (fun p => !p.isTopKeyword word),
        item.dropWhile fun p => !p.isTopKeyword word) :=
    Run.breakAt_head? (·.isTopKeyword word) item
  have hsplit : (r.take (i + item.length)).drop i =
      item.takeWhile (fun p => !p.isTopKeyword word) ++
        item.dropWhile fun p => !p.isTopKeyword word := by
    rw [hitem, List.takeWhile_append_dropWhile]
  rw [hcut, hitem, hbreak] at hfind
  have hnone : item.dropWhile (fun p => !p.isTopKeyword word) = [] ↔
      ¬ item.any (·.isTopKeyword word) = true := by
    simp [List.dropWhile_eq_nil_iff]
  rw [hfind, Run.placeOf_eq (by omega) hsplit]
  by_cases hany : item.any (·.isTopKeyword word) = true
  · rw [if_pos hany, if_neg (fun hnil => hnone.1 hnil hany)]
  · rw [if_neg hany, if_pos (hnone.2 hany)]

/-- The last token of an item is an alias exactly when the item ends in one. -/
theorem aliasAtEnd?_eq (hi : r.drop i = item ++ next) :
    st.aliasAtEnd? i (i + item.length) =
      .ok (if SelectItem.endsInAlias item then some (i + item.length - 1) else none) := by
  rw [aliasAtEnd?, Nat.add_sub_cancel_left]
  rcases List.eq_nil_or_concat item with rfl | ⟨front, last, rfl⟩
  · rfl
  · rw [List.concat_eq_append] at hi ⊢
    rcases List.eq_nil_or_concat front with rfl | ⟨init, previous, rfl⟩
    · rfl
    · have hprevious : r.drop (i + init.length) = previous :: last :: next := by
        apply Run.drop_add
        rw [hi, List.concat_eq_append, List.append_assoc, List.append_assoc]
        rfl
      have hlast : r.drop (i + init.length + 1) = last :: next :=
        Run.drop_add (a := [previous]) hprevious
      have hlength : (init.concat previous ++ [last]).length = init.length + 2 := by simp
      have hends : SelectItem.endsInAlias (init.concat previous ++ [last]) =
          (last.depth == 0 && last.token.isName && !SelectItem.isReserved last.token &&
            SelectItem.endsOperand previous.token) := by
        rw [SelectItem.endsInAlias, List.concat_eq_append, List.reverse_append, List.reverse_append]
        rfl
      have hone : sub (i + (init.length + 2)) 1 = .ok (i + init.length + 1) :=
        sub_add_right (i + init.length + 1) 1
      have htwo : sub (i + (init.length + 2)) 2 = .ok (i + init.length) :=
        sub_add_right (i + init.length) 2
      rw [hlength, if_neg (by omega), hone, ok_bind, h.get_tokens hlast, ok_bind, htwo, ok_bind,
        h.get_tokens hprevious, ok_bind, h.get_depths hlast, ok_bind, hends]
      simp only [Lexeme.token_locate, Bool.and_assoc]
      cases last.token.isName && (!SelectItem.isReserved last.token &&
        SelectItem.endsOperand previous.token) with
      | false => simp
      | true => simp only [Bool.and_true, if_true, beq_iff_eq]; rfl

/-- Where the alias of an item starts, its operand stops. -/
theorem aliasStart?_eq (hi : r.drop i = item ++ next) (hitem : item ≠ []) :
    ∃ label, st.aliasStart? i (i + item.length) = .ok label ∧
      label.getD (i + item.length) = i + (SelectItem.operand item).length ∧
      SelectItem.operand item <+: item := by
  rcases List.exists_cons_of_ne_nil hitem with ⟨p, ps, rfl⟩
  have hlt := Run.lt_length_of_drop hi
  have hps : r.drop (i + 1) = ps ++ next := Run.drop_add (a := [p]) hi
  have hfind := h.find_keyword hps hlt "AS"
  rw [Nat.add_assoc, Nat.add_comm 1] at hfind
  rw [aliasStart?, h.aliasAtEnd?_eq hi, List.length_cons, hfind, ok_bind, SelectItem.operand]
  by_cases hword : (ps.any (·.isTopKeyword "AS")) = true
  · rw [if_pos hword, if_pos hword]
    refine ⟨_, rfl, ?_, List.cons_prefix_cons.2 ⟨rfl, List.takeWhile_prefix _⟩⟩
    rw [Option.getD_some, List.length_cons]
    omega
  · rw [if_neg hword, if_neg hword]
    refine ⟨_, rfl, ?_⟩
    by_cases hends : SelectItem.endsInAlias (p :: ps) = true
    · rw [if_pos hends, if_pos hends]
      refine ⟨?_, List.dropLast_prefix _⟩
      rw [Option.getD_some, List.length_dropLast, List.length_cons]
      omega
    · rw [if_neg hends, if_neg hends]
      exact ⟨rfl, List.prefix_refl _⟩

/-! ## Columns -/

/-- The tokens of a range stand behind its start. -/
theorem getElem?_range (hi : r.drop i = item ++ next) (k : Nat) :
    ((st.tokens.take (i + item.length)).drop i)[k]? =
      (item.drop k).head?.map fun p => p.toLexeme.locate (offset r (i + k)) := by
  have hdrop : r.drop (i + k) = (item ++ next).drop k := by
    rw [← List.drop_drop, hi]
  rw [List.getElem?_drop, List.getElem?_take, h.getElem?_tokens, hdrop]
  by_cases hk : k < item.length
  · rw [if_pos (by omega), List.drop_append_of_le_length (by omega), List.drop_eq_getElem_cons hk]
    rfl
  · rw [if_neg (by omega), List.drop_eq_nil_of_le (by omega)]
    rfl

/-- The tokens of a range are taken without a fault. -/
theorem range_tokens (hi : r.drop i = item ++ next) (hle : i ≤ r.length) :
    range st.tokens i (i + item.length) = .ok ((st.tokens.take (i + item.length)).drop i) ∧
      ((st.tokens.take (i + item.length)).drop i).length = item.length := by
  have hlength := congrArg List.length hi
  rw [List.length_drop, List.length_append] at hlength
  have htokens := h.length_tokens
  constructor
  · exact range_eq_ok (Nat.le_add_right i _) (by omega)
  · rw [List.length_drop, List.length_take]
    omega

/-- The gap of a lexeme is the text in front of its token. -/
theorem slice_gap {p : Placed} (hi : r.drop i = p :: next) :
    slice st.source (offset r i) (p.toLexeme.locate (offset r i)).start = .ok p.gap := by
  rcases h.source with ⟨tail, hsource⟩
  have hrun : r.map Placed.toLexeme =
      (r.take i).map Placed.toLexeme ++ (p :: next).map Placed.toLexeme := by
    rw [← hi, ← List.map_append, List.take_append_drop]
  rw [slice_eq_ok_iff]
  refine ⟨Lexeme.sourceAll ((r.take i).map Placed.toLexeme), Run.text (p :: next) ++ tail, ?_, rfl,
    rfl⟩
  rw [hsource, hrun, Lexeme.sourceAll_append, Run.sourceAll_map]
  simp only [List.append_assoc]

/-- A step of the loop tells a qualifier by the run and writes any other token. -/
theorem itemStep_eq {p : Placed} {rest : Run} {k : Nat} (hi : r.drop i = item ++ next)
    (hk : item.drop k = p :: rest) (out : Output) :
    st.itemStep ((st.tokens.take (i + item.length)).drop i) k out =
      if SelectItem.startsWithQualifier (p :: rest) then
        .ok (some (k + 2, { out with
          gapStop := some (out.gapStop.getD (p.toLexeme.locate (offset r (i + k))).start) }))
      else (do
        let gap ← out.gap st.source (p.toLexeme.locate (offset r (i + k))).start
        .ok (some (k + 1, ⟨out.text ++ (gap ++ p.token.text),
          some (p.toLexeme.locate (offset r (i + k))).stop, none⟩))) := by
  have hget : get ((st.tokens.take (i + item.length)).drop i) k =
      .ok (p.toLexeme.locate (offset r (i + k))) := by
    apply get_eq_ok
    rw [h.getElem?_range hi, hk]
    rfl
  rw [itemStep, hget, ok_bind, h.getElem?_range hi, h.getElem?_range hi, Option.any_map,
    Option.any_map, SelectItem.startsWithQualifier, ← hk, List.drop_drop, List.drop_drop, hk]
  rfl

/-- The column that is put together of the tokens of a range. -/
theorem loop_itemStep (hi : r.drop i = item ++ next) (k : Nat) (out : Output)
    {write : Run → List Char}
    (hout : out.Pending st.source (offset r (i + k)) write) :
    ∃ done, loop item.length (st.itemStep ((st.tokens.take (i + item.length)).drop i)) k out =
        .ok done ∧
      done.2.text = out.text ++ write (SelectItem.unqualify (item.drop k)) := by
  induction hn : item.length - k using Nat.strongRecOn generalizing k out write with
  | ind n ih =>
    cases hk : item.drop k with
    | nil =>
      refine ⟨(k, out), loop_done (List.drop_eq_nil_iff.1 hk), ?_⟩
      have hunqualify : SelectItem.unqualify [] = [] := by simp [SelectItem.unqualify]
      rw [hunqualify, hout.write_nil, List.append_nil]
    | cons p rest =>
      have hlt := Run.lt_length_of_drop hk
      have hdrop : r.drop (i + k) = p :: (rest ++ next) := by
        rw [← List.drop_drop, hi, List.drop_append_of_le_length (by omega), hk]
        rfl
      have hgap := h.slice_gap hdrop
      have hstep := h.itemStep_eq hi hk out
      rw [SelectItem.unqualify_cons]
      by_cases hqualifier : SelectItem.startsWithQualifier (p :: rest) = true
      · rw [if_pos hqualifier] at hstep ⊢
        rcases hout.exists_passed hgap (offset r (i + (k + 2))) with ⟨write', hout', hwrite⟩
        rw [loop_next hlt hstep (by omega), hwrite]
        have htail : item.drop (k + 2) = rest.tail := by
          rw [← List.drop_drop, hk]
          cases rest <;> rfl
        rw [← htail]
        exact ih (item.length - (k + 2)) (by omega) (k + 2) _ hout' rfl
      · rw [if_neg hqualifier] at hstep ⊢
        rcases hout.exists_gap hgap with ⟨gap, hout', hwrite⟩
        have hstop : (p.toLexeme.locate (offset r (i + k))).stop = offset r (i + (k + 1)) := by
          rw [← Nat.add_assoc]
          exact stop_locate [] hdrop
        have htail : item.drop (k + 1) = rest := Run.drop_add (a := [p]) hk
        rw [hout', ok_bind, hstop] at hstep
        rcases ih (item.length - (k + 1)) (by omega) (k + 1)
          ⟨out.text ++ (gap ++ p.token.text), some (offset r (i + (k + 1))), none⟩ .behind rfl with
          ⟨done, hloop, htext⟩
        refine ⟨done, (loop_next hlt hstep (by omega)).trans hloop, ?_⟩
        rw [htext, hwrite, ← htail, List.append_assoc]

/-- The column of a select item. -/
theorem selectItem_eq (hi : r.drop i = item ++ next) (hitem : item ≠ []) :
    st.selectItem i (i + item.length) = .ok (SelectItem.column item) := by
  rcases h.aliasStart?_eq hi hitem with ⟨label, hlabel, hstop, ⟨rest, hrest⟩⟩
  have hoperand : r.drop i = SelectItem.operand item ++ (rest ++ next) := by
    rw [hi, ← List.append_assoc, hrest]
  have hle : i ≤ r.length := by
    rcases List.exists_cons_of_ne_nil hitem with ⟨p, ps, rfl⟩
    exact Nat.le_of_lt (Run.lt_length_of_drop hi)
  rcases h.range_tokens hoperand hle with ⟨hrange, hlength⟩
  rcases h.loop_itemStep hoperand 0 ⟨[], none, none⟩ .first with ⟨done, hloop, htext⟩
  rw [selectItem, hlabel, ok_bind, hstop, hrange, ok_bind, hlength, hloop, ok_bind, htext,
    List.nil_append]
  rfl

end

end Checked.Statement.Shows

end SelectAlgebra
