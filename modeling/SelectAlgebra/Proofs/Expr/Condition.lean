import SelectAlgebra.Expr
import SelectAlgebra.Proofs.Comment.Edit
import SelectAlgebra.Proofs.Query.Layout
import SelectAlgebra.Proofs.Text.Respaced
import SelectAlgebra.Proofs.Token.Stops

/-!
# Join conditions

A join is written with the blanks of its condition collapsed, wherever they stand.  Between tokens
that says nothing, but a string or a quoted name can hold blanks too.  So the tokens of a condition
stay in their order and of their kinds, and each of them has its own blanks collapsed.

Main results:

- Theorem `Token.read_respace`: a token is read with its own blanks collapsed.
- Theorem `Token.ofText_collapse`: the tokens of a collapsed text.
- Theorem `Token.collapsed_eq_self_iff`: which tokens stay as they are.
- Theorem `Expr.ofText_collapseBlanks`: the tokens of a condition as it is written in a join.
-/

namespace SelectAlgebra

open Text (respace endsBlank SingleSpaced)

namespace Token

/-- The token with the blanks inside of it collapsed. -/
def collapsed (t : Token) : Token :=
  ⟨t.kind, Text.collapse t.text⟩

variable {c quote : Char} {cs rest : List Char} {t : Token}

/-! ## Quoted runs -/

/-- Quotes are doubled in texts one by one. -/
theorem double_append (quote : Char) (cs ds : List Char) :
    double quote (cs ++ ds) = double quote cs ++ double quote ds := by
  induction cs with
  | nil => rfl
  | cons c cs ih =>
    rw [List.cons_append, double, double, ih]
    split <;> rfl

/-- A space is no quote. -/
theorem double_gap (h : isQuote quote = true) (blanks : Bool) :
    double quote (if blanks then [' '] else []) = if blanks then [' '] else [] := by
  have hne : ' ' ≠ quote := by
    rintro rfl
    cases h
  cases blanks with
  | false => rfl
  | true => simp [double, hne]

/-- Quotes that are written twice stay so, and none comes up. -/
theorem respace_double (blanks : Bool) (inside : List Char) (h : isQuote quote = true) :
    respace blanks (double quote inside) = double quote (respace blanks inside) ∧
      endsBlank blanks (double quote inside) = endsBlank blanks inside := by
  have hquote : Text.isBlank quote = false := Lexeme.isBlank_of_isQuote h
  have hgap : ∀ b : Bool, double quote (if b then [' '] else []) = if b then [' '] else [] :=
    double_gap h
  induction inside generalizing blanks with
  | nil => exact ⟨rfl, rfl⟩
  | cons c inside ih =>
    by_cases hc : c = quote
    · subst hc
      have hdouble : double c (c :: inside) = c :: c :: double c inside := by simp [double]
      obtain ⟨hrun, hends⟩ := ih false
      rw [hdouble, Text.respace_cons _ hquote, Text.respace_cons _ hquote,
        Text.respace_cons _ hquote, hrun, double_append, hgap]
      simp [double, endsBlank, hquote, hends]
    · have hdouble : double quote (c :: inside) = c :: double quote inside := by simp [double, hc]
      rw [hdouble, endsBlank, endsBlank, (ih (Text.isBlank c)).2]
      cases hblank : Text.isBlank c with
      | true =>
        rw [Text.respace_cons_of_blank _ hblank, Text.respace_cons_of_blank _ hblank, (ih true).1]
        exact ⟨rfl, rfl⟩
      | false =>
        rw [Text.respace_cons _ hblank, Text.respace_cons _ hblank, (ih false).1, double_append,
          hgap]
        simp [double, hc]

/-- A closed quoted run stays one, whatever stands behind it. -/
theorem exists_respace_inQuotes (inside : List Char) (h : isQuote quote = true) :
    ∃ inside', ∀ rest, respace false (inQuotes quote inside ++ rest) =
      inQuotes quote inside' ++ respace false rest := by
  have hquote : Text.isBlank quote = false := Lexeme.isBlank_of_isQuote h
  obtain ⟨hrun, hends⟩ := respace_double false inside h
  refine ⟨respace false inside ++ if endsBlank false inside then [' '] else [], fun rest => ?_⟩
  have hgap : double quote (if endsBlank false inside then [' '] else []) =
      if endsBlank false inside then [' '] else [] := double_gap h _
  rw [inQuotes, List.cons_append, List.append_assoc, List.singleton_append,
    Text.respace_cons _ hquote, Text.respace_append, hrun, hends, Text.respace_cons _ hquote,
    inQuotes, double_append, hgap]
  simp

/-! ## One token -/

/-- A token outside quotes stops where it stopped, when the text behind it has its blanks
collapsed. -/
theorem read_respace_rest (hquote : isQuote c = false) {tail : List Char}
    (htext : t.text = c :: tail) (h : read c (tail ++ rest) = (t, rest)) :
    read c (tail ++ respace false rest) = (t, respace false rest) := by
  have halone : read c tail = (t, []) := read_alone h htext
  have hclosed : t.Terminated := by
    intro quote ds hds hopens
    rw [htext] at hds
    rw [← (List.cons.inj hds).1, hquote] at hopens
    cases hopens
  cases rest with
  | nil =>
    rw [Text.respace_nil, List.append_nil]
    exact halone
  | cons d rest =>
    cases hd : Text.isBlank d with
    | true =>
      have hbreak : StartsWithBreak (respace false (d :: rest)) := by
        rw [Text.respace_cons_of_blank _ hd]
        intro e he
        rw [Text.head?_respace_true e he]
        decide
      exact read_before_break hbreak (fun _ => hclosed) halone
    | false =>
      have hstops : t.Stops ([d] ++ rest) := stops_of_read h
      have hdigit : (∀ e ∈ rest.head?, e.isDigit = false) →
          ∀ e ∈ (respace false rest).head?, e.isDigit = false := by
        intro hrest e he
        rcases Text.head?_respace he with rfl | he
        · decide
        · exact hrest e he
      have hkeep : t.Stops ([d] ++ respace false rest) :=
        hstops.exchange (List.cons_ne_nil d []) fun _ => hdigit
      rw [Text.respace_cons _ hd]
      exact read_of_stops halone hclosed hkeep

/-- A token is read with its own blanks collapsed, and leaves what follows to itself. -/
theorem read_respace (hc : Text.isBlank c = false) (h : read c cs = (t, rest)) :
    read c (respace false cs) = (t.collapsed, respace false rest) := by
  obtain ⟨tail, htext, rfl⟩ := text_of_read h
  have hcollapse : t.collapsed = ⟨t.kind, respace false t.text⟩ := by
    have hstart : ∀ d ∈ t.text.head?, Text.isBlank d = false := by
      rw [htext]
      rintro d ⟨⟩
      exact hc
    rw [collapsed, Text.collapse_eq_respace hstart]
  cases hquote : isQuote c with
  | false =>
    have hplain : ∀ d ∈ c :: tail, Text.isBlank d = false := by
      rw [← htext]
      exact isBlank_of_read hquote hc h
    obtain ⟨hkept, hends⟩ :=
      Text.respace_of_no_blank fun d hd => hplain d (List.mem_cons_of_mem c hd)
    rw [hcollapse, htext, (Text.respace_of_no_blank hplain).1, ← htext, Text.respace_append, hkept,
      hends]
    exact read_respace_rest hquote htext h
  | true =>
    rcases exists_inQuotes c (tail ++ rest) with ⟨inside, rest', hsplit, hhead⟩ | ⟨inside, hsplit⟩
    · obtain ⟨inside', hinside⟩ := exists_respace_inQuotes inside hquote
      have hrun := hinside []
      have hall := hinside rest'
      have hbehind : (respace false rest').head? ≠ some c := by
        intro hd
        rcases Text.head?_respace hd with rfl | hd
        · cases hquote
        · exact hhead hd
      rw [← hsplit, Text.respace_cons _ hc, inQuotes, List.cons_append, List.append_assoc] at hall
      rw [inQuotes, List.cons_append, List.append_assoc] at hsplit
      rw [(List.cons.inj hsplit).2, List.singleton_append, read_inQuotes inside hquote hhead] at h
      obtain ⟨rfl, rfl⟩ := Prod.mk.inj h
      rw [List.append_nil, Text.respace_nil, List.append_nil] at hrun
      rw [(List.cons.inj hall).2, List.singleton_append, read_inQuotes inside' hquote hbehind,
        hcollapse, hrun]
    · have hrun := (respace_double false inside hquote).1
      rw [hsplit, read, if_pos hquote, quotedTail_double] at h
      obtain ⟨rfl, rfl⟩ := Prod.mk.inj h
      rw [hsplit, hcollapse, hrun, read, if_pos hquote, quotedTail_double, Text.respace_cons _ hc,
        hrun]
      rfl

end Token

/-! ## All tokens -/

namespace Lexeme

variable {cs rest : List Char}

/-- What has been read of a text is read again with its blanks collapsed, each token with its
own. -/
theorem map_token_ofText_respace {ls : List Lexeme} (h : Reads cs ls rest)
    (hrest : ∀ c ∈ rest, Text.isBlank c = true) (blanks : Bool) :
    (ofText (respace blanks cs)).map token = (ls.map token).map Token.collapsed := by
  induction h generalizing blanks with
  | done =>
    have hnone : next? [] = none := rfl
    rw [Text.respace_of_blank blanks hrest, ofText_eq_nil hnone]
    rfl
  | @next cs mid rest l ls hl _ ih =>
    obtain ⟨c, tail, rfl, hgap, hc, hread⟩ := next?_eq_some hl
    have hspace : ∀ b : Bool, ∀ d ∈ if b then [' '] else [], Text.isBlank d = true := by
      intro b d hd
      cases b with
      | false => cases hd
      | true =>
        obtain rfl := List.mem_singleton.1 hd
        decide
    have hfirst : next? (respace blanks (l.gap ++ c :: tail)) =
        some (⟨if endsBlank blanks l.gap then [' '] else [], l.token.collapsed⟩,
          respace false mid) := by
      rw [Text.respace_append, Text.respace_of_blank blanks hgap, List.nil_append,
        Text.respace_cons _ hc, next?_gap_append (hspace _) hc, Token.read_respace hc hread]
    rw [ofText_eq_cons hfirst, List.map_cons, ih hrest false]
    rfl

end Lexeme

namespace Token

/-- The tokens of a collapsed text are those of the text, each with its own blanks collapsed. -/
theorem ofText_collapse (cs : List Char) :
    ofText (Text.collapse cs) = (ofText cs).map collapsed := by
  obtain ⟨hsplit, hgap, hhead⟩ := List.takeWhile_dropWhile_iff.1
    (And.intro (rfl : cs.takeWhile Text.isBlank = _) (rfl : cs.dropWhile Text.isBlank = _))
  obtain ⟨blank, hblank, hreads⟩ := Lexeme.Reads.of_ofText (cs.dropWhile Text.isBlank)
  rw [hsplit, ofText, ofText, Text.collapse_blank_append _ hgap, Text.collapse_eq_respace hhead,
    Lexeme.map_token_ofText_respace hreads hblank, Lexeme.map_token_ofText_blank_append _ hgap]

/-- A token of a text stays as it is unless it is quoted and holds blanks that are not single
spaces. -/
theorem collapsed_eq_self_iff {cs : List Char} {t : Token} (ht : t ∈ ofText cs) :
    t.collapsed = t ↔ (t.isQuoted = true → SingleSpaced t.text) := by
  obtain ⟨l, hl, rfl⟩ := List.mem_map.1 ht
  have hstart : ∀ c ∈ l.token.text.head?, Text.isBlank c = false := by
    revert hl
    apply Lexeme.Reads.forall_ofText
    intro cs l rest hnext
    obtain ⟨c, tail, htext, hc⟩ := Lexeme.text_of_next? hnext
    rw [htext]
    rintro d ⟨⟩
    exact hc
  have htext : l.token.collapsed = l.token ↔ Text.collapse l.token.text = l.token.text :=
    ⟨congrArg Token.text, fun h => by rw [collapsed, h]⟩
  rw [htext, Text.collapse_eq_self_iff hstart]
  constructor
  · exact fun h _ => h
  · intro hquoted
    by_cases hblank : ∃ c ∈ l.token.text, Text.isBlank c = true
    · exact hquoted (isQuoted_iff.2 (Lexeme.kind_of_mem_ofText l hl hblank))
    · push Not at hblank
      exact Text.singleSpaced_of_no_blank fun c hc => Bool.eq_false_iff.2 (hblank c hc)

end Token

namespace Expr

open Token (ofText)

/-- The condition of a join is written with its tokens in their order and of their kinds, and each
token with its own blanks collapsed.  So a token is kept unless it is a string or a quoted name that
holds other blanks than single spaces, and it is the same tokens exactly when none is. -/
theorem ofText_collapseBlanks (condition : String) :
    ofText (collapseBlanks condition).toList =
        (ofText condition.toList).map Token.collapsed ∧
      (∀ t ∈ ofText condition.toList,
        (t.collapsed = t ↔ (t.isQuoted = true → SingleSpaced t.text))) ∧
      (SameTokens (collapseBlanks condition) condition ↔
        ∀ t ∈ ofText condition.toList, t.isQuoted = true → SingleSpaced t.text) ∧
      ∀ (kind : JoinKind) (left : Expr) (right : String),
        (join kind condition left right).oneLine =
          "(" ++ left.oneLine ++ " " ++ ((Symbol.join kind).text ++ "[" ++
            collapseBlanks condition ++ "]") ++ " " ++ right ++ ")" := by
  have htokens : ofText (collapseBlanks condition).toList =
      (ofText condition.toList).map Token.collapsed := by
    rw [collapseBlanks, String.toList_ofList, Token.ofText_collapse]
  have hkept : ∀ t ∈ ofText condition.toList,
      (t.collapsed = t ↔ (t.isQuoted = true → SingleSpaced t.text)) :=
    fun t ht => Token.collapsed_eq_self_iff ht
  refine ⟨htokens, hkept, ?_, fun _ _ _ => rfl⟩
  rw [SameTokens, htokens]
  calc (ofText condition.toList).map Token.collapsed = ofText condition.toList
    _ ↔ (ofText condition.toList).map Token.collapsed = (ofText condition.toList).map id := by
      rw [List.map_id]
    _ ↔ ∀ t ∈ ofText condition.toList, t.collapsed = t := List.map_inj_left
    _ ↔ ∀ t ∈ ofText condition.toList, t.isQuoted = true → SingleSpaced t.text :=
      forall₂_congr hkept

/-- A string with two spaces in it is written with one. -/
theorem not_forall_sameTokens_collapseBlanks :
    ¬ ∀ condition : String, SameTokens (collapseBlanks condition) condition := by
  intro h
  have htwo := h "A.n = 'x  y'"
  revert htwo
  decide +kernel

end Expr

end SelectAlgebra
