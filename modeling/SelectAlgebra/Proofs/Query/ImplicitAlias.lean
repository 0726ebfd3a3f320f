import SelectAlgebra.Proofs.Comment.Between
import SelectAlgebra.Proofs.Query.ColumnTokens
import SelectAlgebra.Proofs.Query.Expressions

/-!
# Aliases without AS

Without AS, the alias of a select item is its last token: a name behind an operand.  Where a blank
stands in front of the name, this is how an alias is written.  But a number stops in front of a
letter, and a quote, a star and a parenthesis let a name follow at once, so an item that is written
without blanks can end in a name behind an operand too.  Its last token goes all the same.

Main results:

- Theorem `Run.not_merges_of_gap_eq_nil`: which tokens can stand one directly behind the other.
- Theorem `Run.endsJoined_iff`: which items lose a token that no blank stands in front of.
- Theorem `Query.columns_withoutAs`: which columns leave out the last token of their item.
-/

namespace SelectAlgebra

/-! ## The last two tokens of an item -/

/-- The item ends in a name outside parentheses with no blank in front of it, behind a number, a
string, a star, a closing parenthesis or a quoted name, or behind a bare word when it is quoted
itself; and neither of the two is a reserved word. -/
def Run.EndsJoined (item : Run) : Prop :=
  ∃ front p z, item = front ++ [p, z] ∧ z.gap = [] ∧ z.depth = 0 ∧ z.token.isName = true ∧
    SelectItem.isReserved z.token = false ∧
    (p.token.kind ∈ [.number, .string, .star, .rightParen, .quotedName] ∨
      (p.token.kind = .word ∧ SelectItem.isReserved p.token = false ∧
        z.token.kind = .quotedName))

namespace SelectItem

/-- Which tokens can end an operand. -/
theorem endsOperand_iff {t : Token} : endsOperand t = true ↔
    t.kind ∈ [.number, .string, .star, .rightParen, .quotedName] ∨
      (t.kind = .word ∧ isReserved t = false) := by
  rw [endsOperand]
  cases t.kind <;> simp

/-- An item that ends in an alias without AS has two tokens, of which the last is a name. -/
theorem exists_of_endsInAlias {item : Run} (h : endsInAlias item = true) :
    ∃ front p z, item = front ++ [p, z] ∧ z.depth = 0 ∧ z.token.isName = true ∧
      isReserved z.token = false ∧ endsOperand p.token = true := by
  rcases List.eq_nil_or_concat item with rfl | ⟨init, z, rfl⟩
  · cases h
  · rcases List.eq_nil_or_concat init with rfl | ⟨front, p, rfl⟩
    · cases h
    · rw [List.concat_eq_append, List.concat_eq_append, List.append_assoc,
        List.singleton_append] at h ⊢
      rw [Written.endsInAlias_pair] at h
      simp only [Bool.and_eq_true, beq_iff_eq, Bool.not_eq_true'] at h
      obtain ⟨⟨⟨hdepth, hname⟩, hreserved⟩, hoperand⟩ := h
      exact ⟨front, p, z, rfl, hdepth, hname, hreserved, hoperand⟩

/-- An item that ends in an alias without AS has more text than it has without its last token. -/
theorem unqualifiedText_dropLast_ne {item : Run} (hsolid : item.Solid)
    (h : endsInAlias item = true) :
    Run.unqualifiedText item.dropLast ≠ Run.unqualifiedText item := by
  obtain ⟨front, p, z, rfl, -, hname, -, hoperand⟩ := exists_of_endsInAlias h
  have hp : ∀ r ∈ (front ++ [p]).getLast?, r.token.kind ≠ .dot := by
    intro r hr hkind
    obtain rfl : p = r := by simpa using hr
    simp [endsOperand, hkind] at hoperand
  have hz : z.token.kind ≠ .dot := by
    intro hkind
    simp [Token.isName, hkind] at hname
  have hsplit : front ++ [p, z] = front ++ [p] ++ [z] := by simp
  obtain ⟨c, cs, htext, -⟩ := hsolid z (by simp)
  rw [hsplit, List.dropLast_concat]
  exact Run.unqualifiedText_ne_append (by simp) hp hz (by simp [htext])

end SelectItem

/-! ## Tokens with no blank between them -/

namespace Run

variable {cs : List Char}

/-- A name with no blank in front of it does not become one with the token in front of it. -/
theorem not_merges_of_gap_eq_nil {p z : Placed} (h : PieceOf cs [p, z]) (hgap : z.gap = [])
    (hname : z.token.isName = true) : ¬ p.token.Merges z.token := by
  have hback : ReadBack [p, z] := h.reads
  obtain ⟨b, bs, -, hp⟩ := SelectItem.read_head_of_readBack hback
  obtain ⟨c, ds, -, hz⟩ := SelectItem.read_head_of_readBack (readBack_cons_iff.1 hback).2
  have hstops : p.token.Stops (sourceText [z]) :=
    (Lexeme.next?_source_append_iff.1 (readBack_cons_iff.1 hback).1).2.2
  have hsource : sourceText [z] = z.token.text ++ [] := by
    rw [sourceText_cons, Lexeme.source, hgap]
    rfl
  rw [hsource] at hstops
  exact (Token.stops_append_iff hp hz (Or.inl hname) []).1 hstops

/-- An item of a text loses a token that no blank stands in front of when it ends in two tokens that
are read one directly behind the other. -/
theorem endsJoined_iff {item : Run} (h : PieceOf cs item) : EndsJoined item ↔
    SelectItem.endsInAlias item = true ∧ ∀ z ∈ item.getLast?, z.gap = [] := by
  constructor
  · rintro ⟨front, p, z, rfl, hgap, hdepth, hname, hreserved, hkinds⟩
    have hoperand : SelectItem.endsOperand p.token = true :=
      SelectItem.endsOperand_iff.2 (hkinds.imp_right fun hword => ⟨hword.1, hword.2.1⟩)
    constructor
    · simp [Written.endsInAlias_pair, hdepth, hname, hreserved, hoperand]
    · intro r hr
      obtain rfl : z = r := by simpa using hr
      exact hgap
  · rintro ⟨hends, hgaps⟩
    obtain ⟨front, p, z, rfl, hdepth, hname, hreserved, hoperand⟩ :=
      SelectItem.exists_of_endsInAlias hends
    have hgap : z.gap = [] := hgaps z (by simp)
    refine ⟨front, p, z, rfl, hgap, hdepth, hname, hreserved, ?_⟩
    rcases SelectItem.endsOperand_iff.1 hoperand with hkind | ⟨hword, hfree⟩
    · exact Or.inl hkind
    · -- two bare words would have been read as one
      have hpair : PieceOf cs [p, z] := h.of_infix (List.suffix_append front _).isInfix
      have hmerges := not_merges_of_gap_eq_nil hpair hgap hname
      have hquoted : z.token.kind = .quotedName := by
        rw [Token.isName, Bool.or_eq_true, beq_iff_eq, beq_iff_eq] at hname
        exact hname.resolve_left fun hz => hmerges (Or.inl ⟨hword, hz⟩)
      exact Or.inr ⟨hword, hfree, hquoted⟩

end Run

/-! ## The columns of a query -/

namespace Query

/-- Which columns leave out the last token of their item.  Where no AS stands behind the first token
of an item, its column is the text of the item without qualifiers, or the same without the last
token.  What is left out has a blank in front of it, unless the item ends in a name that is read
directly behind an operand: such a name is always left out.  And a token has no blank in front of it
exactly where the text has neither a blank nor a comment behind the token in front. -/
theorem columns_withoutAs {text : String} {q : Query} (h : ofText? text = some q) :
    List.Forall₂ (fun item column =>
        Run.PieceOf (Comment.strip text.toList) item ∧
          ((∀ p ∈ item.tail, p.isTopKeyword "AS" = false) →
            (column = String.ofList (Run.unqualifiedText item) ∨
              column = String.ofList (Run.unqualifiedText item.dropLast)) ∧
            ((column ≠ String.ofList (Run.unqualifiedText item) →
                ∀ z ∈ item.getLast?, z.gap ≠ []) ↔
              ¬ Run.EndsJoined item)))
      (selectItems text) q.columns ∧
    ∀ ls l m ms, Lexeme.ofText (Comment.strip text.toList) = ls ++ l :: m :: ms →
      ∃ front x between y back, text.toList = front ++ x :: (between ++ y :: back) ∧
        Comment.strip front ++ [x] = Lexeme.sourceAll (ls ++ [l]) ∧
        m.token.text.head? = some y ∧ Comment.strip between = m.gap ∧
        (between = [] ↔ m.gap = []) := by
  refine ⟨?_, fun ls l m ms => Lexeme.exists_between⟩
  obtain ⟨hcolumns, hpiece⟩ := columns_eq_selectItems h
  rw [hcolumns, List.forall₂_map_right_iff, List.forall₂_same]
  intro item hitem
  have hpart : Run.PieceOf (Comment.strip text.toList) item := hpiece item hitem
  refine ⟨hpart, fun has => ?_⟩
  rw [SelectItem.column, SelectItem.text_unqualify, Written.operand_of_no_as has, ne_eq,
    String.ofList_inj, String.ofList_inj, Run.endsJoined_iff hpart]
  cases hends : SelectItem.endsInAlias item with
  | false => simp
  | true =>
    have hcut := SelectItem.unqualifiedText_dropLast_ne hpart.solid hends
    obtain ⟨front, p, z, hsplit, -⟩ := SelectItem.exists_of_endsInAlias hends
    have hlast : item.getLast? = some z := by simp [hsplit]
    simp [hcut, hlast]

/-- A number with an exponent. -/
theorem ofText?_exponent :
    ofText? "SELECT 1e5 FROM t" = some ⟨false, ["t"], ["1"], [], [], [], [], []⟩ := by
  decide +kernel

/-- The select list of the text: a number and a word. -/
theorem selectItems_exponent : selectItems "SELECT 1e5 FROM t" =
    [[⟨⟨[' '], ⟨.number, ['1']⟩⟩, 0⟩, ⟨⟨[], ⟨.word, ['e', '5']⟩⟩, 0⟩]] := by
  decide +kernel

/-- The exponent is left out. -/
theorem columns_withoutAs_exponent :
    "1" = String.ofList (Run.unqualifiedText [⟨⟨[' '], ⟨.number, ['1']⟩⟩, 0⟩]) ∧
      Run.EndsJoined [⟨⟨[' '], ⟨.number, ['1']⟩⟩, 0⟩, ⟨⟨[], ⟨.word, ['e', '5']⟩⟩, 0⟩] := by
  have hcolumns := (columns_withoutAs ofText?_exponent).1
  rw [selectItems_exponent] at hcolumns
  obtain ⟨⟨-, hcolumn⟩, -⟩ := List.forall₂_cons.1 hcolumns
  obtain ⟨htext, hjoined⟩ := hcolumn (by decide)
  constructor
  · exact htext.resolve_left (by decide +kernel)
  · by_contra hnot
    exact hjoined.2 hnot (by decide +kernel) _ rfl rfl

/-- Not every last token that is left out has a blank in front of it. -/
theorem not_forall_columns_withoutAs :
    ¬ ∀ text q, ofText? text = some q → List.Forall₂ (fun item column =>
        (∀ p ∈ item, p.isTopKeyword "AS" = false) →
          column ≠ String.ofList (Run.unqualifiedText item) → ∀ z ∈ item.getLast?, z.gap ≠ [])
      (selectItems text) q.columns := by
  intro hall
  have hcolumns := hall _ _ ofText?_exponent
  rw [selectItems_exponent] at hcolumns
  obtain ⟨hcolumn, -⟩ := List.forall₂_cons.1 hcolumns
  exact hcolumn (by decide) (by decide +kernel) _ rfl rfl

end Query

end SelectAlgebra
