import SelectAlgebra.Proofs.Query.Layout
import SelectAlgebra.Proofs.Query.Qualifiers
import SelectAlgebra.Proofs.Token.Stops

/-!
# The tokens of a column

A column is written from what stays of a select item behind its alias and without its qualifiers,
and what follows a qualifier moves up to what stands in front of it.  Where no blank stands in
front of a qualifier, two tokens can become one there.  Everywhere else the column is read back as
the tokens that stay.

Main results:

- Theorem `SelectItem.operand_eq_take`: where the alias of a select item starts.
- Theorem `SelectItem.readBack_unqualify_iff`: what stays of a run is read back unless two tokens
  become one behind a qualifier.
- Theorem `Query.columns_readBack`: the tokens of every column of a query.
-/

namespace SelectAlgebra

open Token (startsQualifier withoutQualifiers)
open Run (headGap)

/-! ## Aliases by their places -/

namespace SelectItem

/-- Where the alias of an item starts: at the first AS outside parentheses behind the first lexeme,
or else at the last lexeme if this is a name behind an operand, or else at the end. -/
def aliasStart (item : Run) : Nat :=
  match item.tail.findIdx? (·.isTopKeyword "AS") with
  | some i => i + 1
  | none => if endsInAlias item then item.length - 1 else item.length

/-- Where the alias of a select item starts, its operand ends. -/
theorem operand_eq_take (item : Run) : operand item = item.take (aliasStart item) := by
  cases item with
  | nil => rfl
  | cons p ps =>
    rw [operand, aliasStart, List.tail_cons]
    cases has : ps.findIdx? (·.isTopKeyword "AS") with
    | some i =>
      have hany : ps.any (·.isTopKeyword "AS") = true := by
        rw [← List.findIdx?_isSome, has]
        rfl
      have hindex : ps.findIdx (·.isTopKeyword "AS") = i :=
        (List.findIdx?_eq_some_iff_findIdx_eq.1 has).2
      rw [if_pos hany, List.take_succ_cons, List.takeWhile_eq_take_findIdx_not]
      simp only [Bool.not_not, hindex]
    | none =>
      have hany : ¬ ps.any (·.isTopKeyword "AS") = true := by
        rw [← List.findIdx?_isSome, has]
        exact Bool.false_ne_true
      rw [if_neg hany]
      by_cases hends : endsInAlias (p :: ps) = true
      · simp only [if_pos hends, List.dropLast_eq_take]
      · simp only [if_neg hends, List.take_length]

end SelectItem

/-! ## Qualifiers in a row -/

namespace Run

/-- One or more qualifiers in a row, each without what follows it. -/
inductive AreQualifiers : Run → Prop
  | last {n d : Placed} : n.token.isName = true → d.token.kind = .dot → AreQualifiers [n, d]
  | more {n d : Placed} {r : Run} : n.token.isName = true → d.token.kind = .dot →
      AreQualifiers r → AreQualifiers (n :: d :: r)

/-- The run starts with qualifiers with no blank in front of them, and what stands behind them, in
no qualifier itself, becomes one with the token. -/
def FusesBehind (t : Token) (r : Run) : Prop :=
  ∃ chain u back, r = chain ++ u :: back ∧ AreQualifiers chain ∧ headGap r = [] ∧
    startsQualifier ((u :: back).map (·.token)) = false ∧ t.Merges u.token

/-- A token of the run becomes one with what stands behind the qualifiers that follow it. -/
def Fuses (r : Run) : Prop :=
  ∃ front t back, r = front ++ t :: back ∧ FusesBehind t.token back

end Run

namespace SelectItem

open Run (AreQualifiers FusesBehind Fuses)

/-- The token can follow the dot of a qualifier. -/
theorem isName_or_star_of_startsQualifier {n d u : Placed} {r : Run}
    (h : startsQualifier ((n :: d :: u :: r).map (·.token)) = true) :
    n.token.isName = true ∧ d.token.kind = .dot ∧
      (u.token.isName = true ∨ u.token.kind = .star) := by
  simpa [startsQualifier, and_assoc] using h

/-- A name and a dot in front of a name or a star are a qualifier. -/
theorem startsQualifier_cons_cons {n d u : Placed} (r : Run) (hn : n.token.isName = true)
    (hd : d.token.kind = .dot) (hu : u.token.isName = true ∨ u.token.kind = .star) :
    startsQualifier ((n :: d :: u :: r).map (·.token)) = true := by
  simpa [startsQualifier, hn, hd] using hu

/-- Behind qualifiers stands what they qualify. -/
theorem exists_chain {r : Run} (h : startsQualifier (r.map (·.token)) = true) :
    ∃ chain u back, r = chain ++ u :: back ∧ AreQualifiers chain ∧
      startsQualifier ((u :: back).map (·.token)) = false ∧
      (u.token.isName = true ∨ u.token.kind = .star) := by
  induction r using unqualifyInduction with
  | nil => cases h
  | keep p r hnot =>
    rw [hnot] at h
    cases h
  | drop n d r hstarts _ ih =>
    cases r with
    | nil => cases hstarts
    | cons u back =>
      obtain ⟨hn, hd, hu⟩ := isName_or_star_of_startsQualifier hstarts
      by_cases hmore : startsQualifier ((u :: back).map (·.token)) = true
      · rcases ih hmore with ⟨chain, v, rest, hr, hchain, hv⟩
        exact ⟨n :: d :: chain, v, rest, by rw [hr]; rfl, .more hn hd hchain, hv⟩
      · exact ⟨[n, d], u, back, rfl, .last hn hd, Bool.eq_false_iff.2 hmore, hu⟩

/-- A chain of qualifiers starts with a name. -/
theorem exists_cons_of_areQualifiers {r : Run} (h : AreQualifiers r) :
    ∃ n s, r = n :: s ∧ n.token.isName = true := by
  cases h with
  | last hn _ => exact ⟨_, _, rfl, hn⟩
  | more hn _ _ => exact ⟨_, _, rfl, hn⟩

/-- Qualifiers go, and what stands behind them takes over the blanks in front of them. -/
theorem unqualify_chain {chain back : Run} {u : Placed} (hchain : AreQualifiers chain)
    (hu : u.token.isName = true ∨ u.token.kind = .star)
    (hback : startsQualifier ((u :: back).map (·.token)) = false) :
    unqualify (chain ++ u :: back) = withGap (headGap chain) (u :: unqualify back) := by
  induction hchain with
  | last hn hd =>
    rw [List.cons_append, List.cons_append, List.nil_append,
      unqualify_cons_cons (startsQualifier_cons_cons back hn hd hu), unqualify_cons_of_not hback]
    rfl
  | @more n d r hn hd hr ih =>
    obtain ⟨m, s, rfl, hm⟩ := exists_cons_of_areQualifiers hr
    rw [List.cons_append, List.cons_append, unqualify_cons_cons, ih, withGap_withGap]
    · rfl
    · exact startsQualifier_cons_cons _ hn hd (Or.inl hm)

end SelectItem

/-! ## Runs that are read back -/

namespace Run

/-- The text that a run covers. -/
def sourceText (r : Run) : List Char :=
  Lexeme.sourceAll (r.map Placed.toLexeme)

/-- The source of a run is that of its first token and of the others. -/
theorem sourceText_cons (p : Placed) (r : Run) : sourceText (p :: r) = p.source ++ sourceText r :=
  rfl

/-- The source of a run is the gap in front of it and its text. -/
theorem sourceText_eq (r : Run) : sourceText r = headGap r ++ text r := by
  cases r with
  | nil => rfl
  | cons p r => exact sourceAll_map p r

/-- The text that the run covers is read back as the run. -/
def ReadBack (r : Run) : Prop :=
  Lexeme.Reads (sourceText r) (r.map Placed.toLexeme) []

variable {p : Placed} {r : Run}

/-- A run is read back token by token. -/
theorem readBack_cons_iff : ReadBack (p :: r) ↔
    Lexeme.next? (p.source ++ sourceText r) = some (p.toLexeme, sourceText r) ∧ ReadBack r :=
  Lexeme.reads_cons_iff

/-- Only blanks stand in front of a run that is read back. -/
theorem ReadBack.isBlank_headGap (h : ReadBack r) : ∀ c ∈ headGap r, Text.isBlank c = true := by
  cases r with
  | nil => simp [headGap]
  | cons p r =>
    rcases Lexeme.next?_eq_some (readBack_cons_iff.1 h).1 with ⟨-, -, -, hgap, -⟩
    exact hgap

/-- The blanks in front of a run do not matter. -/
theorem ReadBack.withGap {gap : List Char} (hgap : ∀ c ∈ gap, Text.isBlank c = true)
    (h : ReadBack r) : ReadBack (SelectItem.withGap gap r) := by
  cases r with
  | nil => exact h
  | cons p r =>
    rw [readBack_cons_iff] at h
    rcases Lexeme.next?_eq_some h.1 with ⟨c, tail, hsource, -, hc, hread⟩
    rcases Token.text_of_read hread with ⟨text, htext, rfl⟩
    rw [SelectItem.withGap, readBack_cons_iff]
    refine ⟨?_, h.2⟩
    have hnew : ({ p with gap } : Placed).source ++ sourceText r =
        gap ++ c :: (text ++ sourceText r) := by
      rw [Lexeme.source, htext, List.append_assoc, List.cons_append]
    rw [hnew, Lexeme.next?_gap_append hgap hc, hread]

/-- Whether a run is read back does not depend on the blanks in front of it. -/
theorem readBack_withGap_iff {gap : List Char} (hgap : ∀ c ∈ gap, Text.isBlank c = true)
    (hhead : ∀ c ∈ headGap r, Text.isBlank c = true) :
    ReadBack (SelectItem.withGap gap r) ↔ ReadBack r := by
  constructor
  · intro h
    have hback := h.withGap hhead
    rw [SelectItem.withGap_withGap] at hback
    cases r with
    | nil => exact h
    | cons p r => exact hback
  · exact ReadBack.withGap hgap

end Run

namespace SelectItem

open Run (AreQualifiers FusesBehind Fuses ReadBack sourceText sourceText_cons sourceText_eq
  readBack_cons_iff)

variable {r : Run}

/-- The first lexeme of a run that is read back is read by itself. -/
theorem read_head_of_readBack {p : Placed} (h : ReadBack (p :: r)) :
    ∃ c cs, p.token.text = c :: cs ∧ Token.read c cs = (p.token, []) := by
  obtain ⟨c, cs, -, -, -, hread⟩ := Lexeme.next?_eq_some (readBack_cons_iff.1 h).1
  obtain ⟨tail, htext, -⟩ := Token.text_of_read hread
  exact ⟨c, tail, htext, Token.read_alone hread htext⟩

/-- A lexeme of a run that is read back is read by itself. -/
theorem read_of_readBack {front back : Run} {p : Placed} (h : ReadBack (front ++ p :: back)) :
    ∃ c cs, p.token.text = c :: cs ∧ Token.read c cs = (p.token, []) := by
  induction front with
  | nil => exact read_head_of_readBack h
  | cons q front ih => exact ih (readBack_cons_iff.1 h).2

/-- A run that starts with qualifiers and the same without them, by what stands behind these. -/
theorem exists_sourceText_unqualify (h : ReadBack r)
    (hstarts : startsQualifier (r.map (·.token)) = true) :
    ∃ chain u back c cs, r = chain ++ u :: back ∧ AreQualifiers chain ∧
      startsQualifier ((u :: back).map (·.token)) = false ∧
      (u.token.isName = true ∨ u.token.kind = .star) ∧ Token.read c cs = (u.token, []) ∧
      sourceText (unqualify r) = headGap r ++ (u.token.text ++ sourceText (unqualify back)) := by
  rcases exists_chain hstarts with ⟨chain, u, back, rfl, hchain, hback, hu⟩
  rcases read_of_readBack h with ⟨c, cs, -, hread⟩
  refine ⟨chain, u, back, c, cs, rfl, hchain, hback, hu, hread, ?_⟩
  obtain ⟨n, s, rfl, -⟩ := exists_cons_of_areQualifiers hchain
  rw [unqualify_chain hchain hu hback, withGap, sourceText_cons, Lexeme.source, List.append_assoc]
  rfl

/-- No digit comes up at the start of a run when its qualifiers go. -/
theorem isDigit_head?_unqualify (h : ReadBack r)
    (hdigit : ∀ d ∈ (sourceText r).head?, d.isDigit = false) :
    ∀ d ∈ (sourceText (unqualify r)).head?, d.isDigit = false := by
  by_cases hstarts : startsQualifier (r.map (·.token)) = true
  · obtain ⟨chain, u, back, c, cs, -, -, -, hu, hread, hsource⟩ :=
      exists_sourceText_unqualify h hstarts
    rw [hsource]
    rw [sourceText_eq] at hdigit
    cases hgap : headGap r with
    | cons b bs =>
      rw [hgap] at hdigit
      exact hdigit
    | nil =>
      obtain ⟨tail, htext, -⟩ := Token.text_of_read hread
      intro d hd
      rw [htext] at hd
      cases hd
      rcases Token.head_of_read hread hu with ⟨-, -, hc⟩ | ⟨-, hc⟩ | ⟨-, rfl⟩
      · exact hc
      · exact (Token.plain_of_head (Or.inr (Or.inl hc))).1
      · decide
  · cases r with
    | nil => exact hdigit
    | cons p r =>
      obtain ⟨c, cs, htext, -⟩ := read_head_of_readBack h
      rw [unqualify_cons_of_not (Bool.eq_false_iff.2 hstarts), sourceText_cons, Lexeme.source,
        htext]
      rw [sourceText_cons, Lexeme.source, htext] at hdigit
      cases hgap : p.gap with
      | nil =>
        rw [hgap] at hdigit
        exact hdigit
      | cons b bs =>
        rw [hgap] at hdigit
        exact hdigit

/-- A token that stops in front of a run stops in front of it without its qualifiers, unless it
becomes one with what stands behind them. -/
theorem stops_unqualify_iff {t : Token} {b : Char} {bs : List Char}
    (ht : Token.read b bs = (t, [])) (h : ReadBack r) (hstops : t.Stops (sourceText r)) :
    t.Stops (sourceText (unqualify r)) ↔ ¬ FusesBehind t r := by
  constructor
  · rintro hstops' ⟨chain, u, back, rfl, hchain, hgap, hback, hmerges⟩
    have hu : u.token.isName = true := by
      rcases hmerges with ⟨-, hkind⟩ | ⟨-, hkind, -⟩
      · simp [Token.isName, hkind]
      · simp [Token.isName, hkind]
    obtain ⟨c, cs, -, hread⟩ := read_of_readBack h
    obtain ⟨n, s, rfl, -⟩ := exists_cons_of_areQualifiers hchain
    have hnone : n.gap = [] := hgap
    rw [unqualify_chain hchain (Or.inl hu) hback, withGap, sourceText_cons,
      Lexeme.source] at hstops'
    change t.Stops ((n.gap ++ u.token.text) ++ _) at hstops'
    rw [hnone, List.nil_append, Token.stops_append_iff ht hread (Or.inl hu)] at hstops'
    exact hstops' hmerges
  · intro hfuses
    by_cases hstarts : startsQualifier (r.map (·.token)) = true
    · obtain ⟨chain, u, back, c, cs, hr, hchain, hback, hu, hread, hsource⟩ :=
        exists_sourceText_unqualify h hstarts
      rw [hsource]
      by_cases hgap : headGap r = []
      · rw [hgap, List.nil_append, Token.stops_append_iff ht hread hu]
        intro hmerges
        exact hfuses ⟨chain, u, back, hr, hchain, hgap, hback, hmerges⟩
      · -- the token stops at the same blank
        rw [sourceText_eq] at hstops
        apply hstops.exchange hgap
        intro hpoint
        have hblank := h.isBlank_headGap '.' (by simp [hpoint])
        cases hblank
    · cases r with
      | nil => exact hstops
      | cons p r =>
        obtain ⟨c, cs, htext, -⟩ := read_head_of_readBack h
        rw [unqualify_cons_of_not (Bool.eq_false_iff.2 hstarts), sourceText_cons]
        rw [sourceText_cons] at hstops
        apply hstops.exchange
        · simp [Lexeme.source, htext]
        · intro _
          exact isDigit_head?_unqualify (readBack_cons_iff.1 h).2

/-- A run fuses at its first token or behind it. -/
theorem fuses_cons_iff {p : Placed} : Fuses (p :: r) ↔ FusesBehind p.token r ∨ Fuses r := by
  constructor
  · rintro ⟨front, t, back, hr, hbehind⟩
    cases front with
    | nil =>
      obtain ⟨rfl, rfl⟩ := List.cons.inj hr
      exact Or.inl hbehind
    | cons q front =>
      obtain ⟨rfl, rfl⟩ := List.cons.inj hr
      exact Or.inr ⟨front, t, back, rfl, hbehind⟩
  · rintro (hbehind | ⟨front, t, back, rfl, hbehind⟩)
    · exact ⟨[], p, r, rfl, hbehind⟩
    · exact ⟨p :: front, t, back, rfl, hbehind⟩

/-- A qualifier does not become one with anything itself. -/
theorem fuses_cons_cons_iff {n d : Placed}
    (h : startsQualifier ((n :: d :: r).map (·.token)) = true) :
    Fuses (n :: d :: r) ↔ Fuses r := by
  have hd : d.token.kind = .dot := by
    cases r with
    | nil => cases h
    | cons u r => exact (isName_or_star_of_startsQualifier h).2.1
  have hname : ¬ FusesBehind n.token (d :: r) := by
    rintro ⟨chain, u, back, hr, hchain, -⟩
    obtain ⟨m, s, rfl, hm⟩ := exists_cons_of_areQualifiers hchain
    obtain ⟨rfl, -⟩ := List.cons.inj hr
    simp [Token.isName, hd] at hm
  have hdot : ¬ FusesBehind d.token r := by
    rintro ⟨chain, u, back, -, -, -, -, hmerges⟩
    simp [Token.Merges, hd] at hmerges
  rw [fuses_cons_iff, fuses_cons_iff]
  simp [hname, hdot]

/-- A run that is read back and has a token has a source. -/
theorem sourceText_ne_nil (h : ReadBack r) (hne : r ≠ []) : sourceText r ≠ [] := by
  rcases List.exists_cons_of_ne_nil hne with ⟨p, s, rfl⟩
  obtain ⟨c, cs, htext, -⟩ := read_head_of_readBack h
  simp [sourceText_cons, Lexeme.source, htext]

/-- What stays of a run is read back unless two tokens become one behind a qualifier. -/
theorem readBack_unqualify_iff (h : ReadBack r) : ReadBack (unqualify r) ↔ ¬ Fuses r := by
  induction r using unqualifyInduction with
  | nil =>
    refine iff_of_true h ?_
    rintro ⟨front, t, back, hr, -⟩
    simp at hr
  | keep p r hnot heq ih =>
    obtain ⟨hnext, hrest⟩ := readBack_cons_iff.1 h
    obtain ⟨c, cs, htext, hread⟩ := read_head_of_readBack h
    obtain ⟨halone, hterminated, hstops⟩ := Lexeme.next?_source_append_iff.1 hnext
    have hclosed : sourceText (unqualify r) ≠ [] → p.token.Terminated := by
      intro hne
      apply hterminated
      apply sourceText_ne_nil hrest
      rintro rfl
      exact hne rfl
    rw [heq, readBack_cons_iff, ih hrest, Lexeme.next?_source_append_iff, fuses_cons_iff, not_or,
      stops_unqualify_iff hread hrest hstops]
    constructor
    · rintro ⟨⟨-, -, hbehind⟩, hr⟩
      exact ⟨hbehind, hr⟩
    · rintro ⟨hbehind, hr⟩
      exact ⟨⟨halone, hclosed, hbehind⟩, hr⟩
  | drop n d r hstarts heq ih =>
    have hrest := (readBack_cons_iff.1 (readBack_cons_iff.1 h).2).2
    have hgap : ∀ c ∈ n.gap, Text.isBlank c = true := h.isBlank_headGap
    have hhead : ∀ c ∈ headGap (unqualify r), Text.isBlank c = true := by
      rw [headGap_unqualify]
      exact hrest.isBlank_headGap
    rw [heq, Run.readBack_withGap_iff hgap hhead, ih hrest, fuses_cons_cons_iff hstarts]

/-- The gaps that stay are gaps of the run. -/
theorem exists_gap_of_mem_unqualify (r : Run) : ∀ p ∈ unqualify r, ∃ q ∈ r, q.gap = p.gap := by
  induction r using unqualifyInduction with
  | nil => simp [unqualify]
  | keep p r _ heq ih =>
    rw [heq]
    intro q hq
    rcases List.mem_cons.1 hq with rfl | hq
    · exact ⟨q, List.mem_cons_self, rfl⟩
    · rcases ih q hq with ⟨x, hx, hgap⟩
      exact ⟨x, List.mem_cons_of_mem p hx, hgap⟩
  | drop n d r _ heq ih =>
    rw [heq]
    intro q hq
    cases hr : unqualify r with
    | nil => simp [hr, withGap] at hq
    | cons u back =>
      rw [hr, withGap] at hq
      rcases List.mem_cons.1 hq with rfl | hq
      · exact ⟨n, List.mem_cons_self, rfl⟩
      · rcases ih q (by simp [hr, hq]) with ⟨x, hx, hgap⟩
        exact ⟨x, by simp [hx], hgap⟩

/-- The text of what stays of a piece is read as the tokens that stay, unless two tokens become one
behind a qualifier. -/
theorem ofText_text_unqualify_iff {cs : List Char} (h : Run.PieceOf cs r) :
    Token.ofText (Run.text (unqualify r)) = withoutQualifiers (r.map (·.token)) ↔ ¬ Fuses r := by
  have hback : ReadBack r := h.reads
  have hgap : ∀ p ∈ unqualify r, ∀ c ∈ p.gap, Text.isBlank c = true := by
    intro p hp
    rcases exists_gap_of_mem_unqualify r p hp with ⟨q, hq, hgap⟩
    rw [← hgap]
    exact h.isBlank_gap q hq
  have hsolid : (unqualify r).Solid := h.solid.of_tokens (exists_of_mem_unqualify r)
  rw [← readBack_unqualify_iff hback, ← map_token_unqualify]
  cases hr : unqualify r with
  | nil =>
    have hnone : Token.ofText (Run.text []) = [] := by
      rw [Token.ofText, Lexeme.ofText_eq_nil rfl]
      rfl
    exact iff_of_true hnone .done
  | cons p back =>
    rw [hr] at hgap hsolid
    have hfirst : sourceText (withGap [] (p :: back)) = Run.text (p :: back) := sourceText_eq _
    have hnone : ∀ c ∈ ([] : List Char), Text.isBlank c = true := by simp
    have hmove := Run.readBack_withGap_iff (r := p :: back) hnone (hgap p List.mem_cons_self)
    rw [← hmove, ← hfirst]
    constructor
    · intro heq
      apply Lexeme.reads_of_map_token_eq
      · intro l hl
        rcases List.mem_cons.1 hl with rfl | hl
        · exact hnone
        · rcases List.mem_map.1 hl with ⟨q, hq, rfl⟩
          exact hgap q (List.mem_cons_of_mem p hq)
      · intro l hl
        rcases List.mem_cons.1 hl with rfl | hl
        · exact hsolid p List.mem_cons_self
        · rcases List.mem_map.1 hl with ⟨q, hq, rfl⟩
          exact hsolid q (List.mem_cons_of_mem p hq)
      · rw [List.map_map]
        exact heq
    · intro hread
      rw [Token.ofText, hread.ofText, Lexeme.ofText_eq_nil rfl, List.append_nil, List.map_map]
      rfl

end SelectItem

/-! ## The columns of a query -/

namespace Query

/-- The items of the select list of a text. -/
def selectItems (text : String) : List Run :=
  (Parts.ofRun? (Run.ofText text.toList)).elim [] fun s => Run.items s.selected

/-- The columns of a query are those of the items of its select list, which are pieces of its
text. -/
theorem columns_eq_selectItems {text : String} {q : Query} (h : ofText? text = some q) :
    q.columns = (selectItems text).map (fun i => String.ofList (SelectItem.column i)) ∧
      ∀ item ∈ selectItems text, Run.PieceOf (Comment.strip text.toList) item := by
  rcases exists_outline_of_ofText? h with ⟨hselect, o, ho⟩
  have hitems : selectItems text = Run.items o.selected := by
    rw [selectItems, o.ofRun?_eq (o.isKeyword_opener hselect)]
    rfl
  have hpiece := o.pieceOf.1
  obtain ⟨-, -, -, -, hcolumns⟩ := shape_of_ofParts? (solid_parts o).1 ho
  rw [hitems]
  exact ⟨hcolumns, fun item hitem => hpiece.of_infix (Run.infix_of_mem_items hitem)⟩

/-- The tokens of the columns.  Each column of a query is read as the tokens of its select item in
front of the alias, without those of the qualifiers, exactly when no two of them become one where a
qualifier was taken away; and no qualifier is left among them. -/
theorem columns_readBack {text : String} {q : Query} (h : ofText? text = some q) :
    List.Forall₂ (fun item column =>
        let operand := item.take (SelectItem.aliasStart item)
        let kept := withoutQualifiers (operand.map (·.token))
        (Token.ofText column.toList = kept ↔ ¬ Run.Fuses operand) ∧
          ∀ i, startsQualifier (kept.drop i) = false)
      (selectItems text) q.columns := by
  obtain ⟨hcolumns, hpiece⟩ := columns_eq_selectItems h
  rw [hcolumns, List.forall₂_map_right_iff, List.forall₂_same]
  intro item hitem operand kept
  have hoperand : SelectItem.operand item = operand := SelectItem.operand_eq_take item
  have hpart : Run.PieceOf (Comment.strip text.toList) operand :=
    Run.PieceOf.of_infix (hpiece item hitem) (List.take_prefix _ _).isInfix
  constructor
  · rw [String.toList_ofList, SelectItem.column, hoperand]
    exact SelectItem.ofText_text_unqualify_iff hpart
  · exact Token.startsQualifier_drop_withoutQualifiers _

/-- A qualifier in quotes directly behind a bare word, with a bare name behind it. -/
def fusing : String :=
  "SELECT a AND\"t\".b FROM t"

/-- The select list of the text with its one item. -/
theorem selectItems_fusing : selectItems fusing =
    [[⟨⟨[' '], ⟨.word, ['a']⟩⟩, 0⟩, ⟨⟨[' '], ⟨.word, ['A', 'N', 'D']⟩⟩, 0⟩,
      ⟨⟨[], ⟨.quotedName, ['"', 't', '"']⟩⟩, 0⟩, ⟨⟨[], ⟨.dot, ['.']⟩⟩, 0⟩,
      ⟨⟨[], ⟨.word, ['b']⟩⟩, 0⟩]] := by
  decide +kernel

/-- Without its qualifier, a name fuses with the word in front of it. -/
theorem ofText?_fusing :
    ofText? fusing = some ⟨false, ["t"], ["a ANDb"], [], [], [], [], []⟩ := by
  decide +kernel

/-- The word and the name become one. -/
theorem columns_readBack_fusing :
    Token.ofText "a ANDb".toList ≠
      [⟨.word, ['a']⟩, ⟨.word, ['A', 'N', 'D']⟩, ⟨.word, ['b']⟩] := by
  have hread := columns_readBack ofText?_fusing
  rw [selectItems_fusing] at hread
  obtain ⟨hfirst, -⟩ := List.forall₂_cons.1 hread
  intro htokens
  apply hfirst.1.1 htokens
  refine ⟨[_], _, [_, _, _], rfl, [_, _], _, [], rfl, .last rfl rfl, rfl, rfl, ?_⟩
  exact Or.inl ⟨rfl, rfl⟩

/-- Not every column is read as the tokens that stay. -/
theorem not_forall_columns_readBack :
    ¬ ∀ text q, ofText? text = some q → List.Forall₂ (fun item column =>
        Token.ofText column.toList =
          withoutQualifiers ((item.take (SelectItem.aliasStart item)).map (·.token)))
      (selectItems text) q.columns := by
  intro hall
  have hread := hall fusing _ ofText?_fusing
  rw [selectItems_fusing] at hread
  obtain ⟨hfirst, -⟩ := List.forall₂_cons.1 hread
  revert hfirst
  decide +kernel

end Query

end SelectAlgebra
