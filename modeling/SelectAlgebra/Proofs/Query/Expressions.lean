import SelectAlgebra.Proofs.Query.GrammarItems
import SelectAlgebra.Proofs.Query.Qualifiers

/-!
# Expressions in a select list

An expression is a row of operands with operators between them: name paths, numbers, strings,
parentheses with anything inside and calls, none of them with a reserved word or a keyword outside
parentheses.  As an item of a select list it stands alone, with an alias, or with AS and an alias.

An expression without an alias looks as if it had one when its last operand is a name by itself
and the operator in front of it is a star or a word, since these can end an operand too.

Main results:

- Theorem `Expression.endsInAlias_run`: which expressions look as if they had an alias.
- Theorems `Expression.column_eq` and `Operand.column_path`: the column of an expression, operand by
  operand, of which a path leaves its last name.
- Theorem `Selection.column_run`: the column that is read from an expression and its alias.
-/

namespace SelectAlgebra.Written

open Lexeme

/-! ## Operands and operators -/

/-- A text that is one token by itself. -/
structure Single (kind : TokenKind) extends Fragment where
  alone : Lexeme.ofText text = [⟨[], ⟨kind, text⟩⟩]

/-- Anything in a pair of parentheses. -/
structure Group extends Fragment where
  inside : List Lexeme
  /-- The blank text in front of the parenthesis that closes. -/
  gap : List Char
  inside_balanced : Balanced inside
  enclosed : Lexeme.ofText text =
    ⟨[], ⟨.leftParen, ['(']⟩⟩ :: (inside ++ [⟨gap, ⟨.rightParen, [')']⟩⟩])

inductive Operand where
  | path (p : Path)
  | literal (kind : TokenKind) (t : Single kind) (value : kind = .number ∨ kind = .string)
  | group (g : Group)
  /-- A path and its arguments, with blank text between them. -/
  | call (p : Path) (before : Blank) (g : Group)

/-- A star, any other punctuation, or a bare word. -/
inductive Operator where
  | star
  | sign (t : Single .operator)
  | word (n : Name) (bare : n.token.kind = .word)

/-- An operator and the operand behind it. -/
structure Link where
  before : Space
  operator : Operator
  after : Space
  operand : Operand

structure Expression where
  head : Operand
  links : List Link

/-- An expression as an item of a select list. -/
structure Selection where
  expression : Expression
  label : Alias

/-- The operand is a name by itself. -/
def Operand.isName : Operand → Bool
  | path p => p.steps.isEmpty
  | _ => false

def Operand.lexemes (gap : List Char) : Operand → List Lexeme
  | path p => p.lexemes gap
  | literal _ t _ => t.lexemes gap
  | group g => g.lexemes gap
  | call p before g => p.lexemes gap ++ g.lexemes before.1

/-- The text of an operand without the qualifiers of its names. -/
def Operand.column (o : Operand) : List Char :=
  Run.unqualifiedText (run (o.lexemes []))

def Operator.isSign : Operator → Bool
  | sign _ => true
  | _ => false

def Operator.token : Operator → Token
  | star => ⟨.star, ['*']⟩
  | sign t => ⟨.operator, t.text⟩
  | word n _ => n.token

def Link.lexemes (k : Link) : List Lexeme :=
  ⟨k.before.1, k.operator.token⟩ :: k.operand.lexemes k.after.1

namespace Expression

def lexemes (gap : List Char) (e : Expression) : List Lexeme :=
  e.head.lexemes gap ++ e.links.flatMap Link.lexemes

/-- The last operand is a name by itself, behind a star or a word. -/
def endsLikeAlias (e : Expression) : Bool :=
  e.links.getLast?.any fun k => k.operand.isName && !k.operator.isSign

/-- The text of the expression without the qualifiers of its names. -/
def column (e : Expression) : List Char :=
  Run.unqualifiedText (run (e.lexemes []))

/-- The text of the expression without its last token and the qualifiers of its names. -/
def cutColumn (e : Expression) : List Char :=
  Run.unqualifiedText (run (e.lexemes [])).dropLast

end Expression

def Selection.lexemes (gap : List Char) (s : Selection) : List Lexeme :=
  s.expression.lexemes gap ++ s.label.lexemes

/-- The column that the item stands for: that of the expression, unless it has no alias and looks
as if it had one. -/
def Selection.column (s : Selection) : List Char :=
  match s.label with
  | .none => if s.expression.endsLikeAlias then s.expression.cutColumn else s.expression.column
  | _ => s.expression.column

/-! ## First lexemes -/

/-- The blank text in front of an operand only goes into the gap of its first lexeme. -/
theorem Operand.exists_lexemes (o : Operand) (gap : Blank) :
    ∃ t ls, o.lexemes [] = ⟨[], t⟩ :: ls ∧ o.lexemes gap.1 = ⟨gap.1, t⟩ :: ls := by
  cases o with
  | path p => exact ⟨_, _, rfl, rfl⟩
  | literal kind t value => exact t.exists_lexemes gap
  | group g => exact g.exists_lexemes gap
  | call p before g => exact ⟨_, _, rfl, rfl⟩

/-- The gap in front of an expression belongs to its first lexeme. -/
theorem Expression.exists_lexemes (e : Expression) (gap : Blank) :
    ∃ t ls, e.lexemes [] = ⟨[], t⟩ :: ls ∧ e.lexemes gap.1 = ⟨gap.1, t⟩ :: ls := by
  obtain ⟨t, ls, hnone, hgap⟩ := e.head.exists_lexemes gap
  exact ⟨t, ls ++ e.links.flatMap Link.lexemes, by rw [lexemes, hnone, List.cons_append],
    by rw [lexemes, hgap, List.cons_append]⟩

/-- A part behind a space is a piece. -/
theorem Part.piece {ls : List Lexeme} {space : Space} (h : Part ls)
    (hhead : ∃ t ms, ls = ⟨space.1, t⟩ :: ms) : Piece ls where
  toPart := h
  starts := by
    obtain ⟨t, ms, rfl⟩ := hhead
    exact startsWithBreak_of_gap space.2.1 space.2.2

/-- The gap in front of a run belongs to its first token. -/
theorem run_eq_withGap (gap : List Char) (t : Token) (ls : List Lexeme) :
    run (⟨gap, t⟩ :: ls) = SelectItem.withGap gap (run (⟨[], t⟩ :: ls)) := by
  cases hkind : t.kind <;> simp [run, Run.place, hkind, SelectItem.withGap]

/-! ## Pieces -/

namespace Single

variable {kind : TokenKind} (t : Single kind) (gap : Blank)

/-- A token by itself is one lexeme. -/
theorem lexemes_eq : t.lexemes gap.1 = [⟨gap.1, ⟨kind, t.text⟩⟩] := by
  obtain ⟨u, ls, htext, hgap⟩ := t.exists_lexemes gap
  rw [t.alone] at htext
  obtain ⟨hu, rfl⟩ := List.cons.inj htext
  obtain rfl : _ = u := congrArg Lexeme.token hu
  exact hgap

theorem part_token : Part [⟨gap.1, ⟨kind, t.text⟩⟩] := by
  rw [← t.lexemes_eq gap]
  exact t.part gap

end Single

namespace Group

variable (g : Group) (gap : Blank)

/-- A group is its inner lexemes between two parentheses. -/
theorem lexemes_eq : g.lexemes gap.1 =
    ⟨gap.1, ⟨.leftParen, ['(']⟩⟩ :: (g.inside ++ [⟨g.gap, ⟨.rightParen, [')']⟩⟩]) := by
  obtain ⟨u, ls, htext, hgap⟩ := g.exists_lexemes gap
  rw [g.enclosed] at htext
  obtain ⟨hu, rfl⟩ := List.cons.inj htext
  obtain rfl : _ = u := congrArg Lexeme.token hu
  exact hgap

/-- What stands between the parentheses is placed inside them. -/
theorem run_eq : run (g.lexemes gap.1) = top ⟨gap.1, ⟨.leftParen, ['(']⟩⟩ ::
    (Run.place 1 g.inside ++ [top ⟨g.gap, ⟨.rightParen, [')']⟩⟩]) := by
  rw [g.lexemes_eq, run, Run.place_enclosed rfl rfl g.inside_balanced]
  rfl

/-- What stands inside a group is not outside parentheses. -/
theorem depth_pos {p : Placed} (hp : p ∈ Run.place 1 g.inside) : 0 < p.depth := by
  have hbalanced : depthBehind 0 g.inside = some 0 := g.inside_balanced
  exact Run.le_depth_of_mem_place hbalanced hp

/-- A name ends where a group begins. -/
theorem endsName (rest : List Char) : EndsName (sourceAll (g.lexemes gap.1) ++ rest) := by
  rw [g.lexemes_eq, sourceAll_cons, source, List.append_assoc, List.append_assoc]
  exact endsName_gap_append gap _ (by decide)

end Group

/-- An operand is a part. -/
theorem Operand.part (o : Operand) (gap : Blank) : Part (o.lexemes gap.1) := by
  cases o with
  | path p => exact p.part gap
  | literal kind t value => exact t.part gap
  | group g => exact g.part gap
  | call p before g =>
    have hpath := p.part gap
    have hgroup := g.part before
    refine ⟨?_, hpath.balanced.append hgroup.balanced, ?_⟩
    · intro b hb
      have hname := p.legibleBefore gap (g.endsName before b)
      exact hname.append (hgroup.legible b hb)
    · rw [lexemes, Run.place_append hpath.balanced]
      intro q hq
      rcases List.mem_append.1 hq with hq | hq
      · exact hpath.no_semicolon q hq
      · exact hgroup.no_semicolon q hq

/-- An operand behind a blank is a piece. -/
theorem Operand.piece (o : Operand) (space : Space) : Piece (o.lexemes space.1) := by
  obtain ⟨t, ls, -, hgap⟩ := o.exists_lexemes space.blank
  exact (o.part space.blank).piece ⟨t, ls, hgap⟩

namespace Operator

variable (o : Operator)

/-- An operator is no parenthesis. -/
theorem not_isParen (gap : List Char) : ¬ (⟨gap, o.token⟩ : Lexeme).IsParen := by
  cases o with
  | star => simp [IsParen, token]
  | sign t => simp [IsParen, token]
  | word n bare => exact (n.not_isParen gap).1

/-- An operator behind a blank is a piece. -/
theorem piece (space : Space) : Piece [⟨space.1, o.token⟩] := by
  cases o with
  | star =>
    apply Part.piece _ ⟨_, _, rfl⟩
    apply Part.of_legible
    · exact fun b _ => legibleBefore_mark b space.2.2 rfl (by decide) (by decide)
    · simp [IsParen, token]
    · simp [token]
  | sign t => exact (t.part_token space.blank).piece ⟨_, _, rfl⟩
  | word n bare => exact n.piece space

end Operator

/-- An operator with its operand is a piece. -/
theorem Link.piece (k : Link) : Piece k.lexemes :=
  (k.operator.piece k.before).cons (k.operand.piece k.after)

/-- An expression is a part. -/
theorem Expression.part (e : Expression) (gap : Blank) : Part (e.lexemes gap.1) :=
  (e.head.part gap).append (.flatMap Link.piece)

namespace Selection

variable (s : Selection)

/-- An item with its alias is a part. -/
theorem part (gap : Blank) : Part (s.lexemes gap.1) :=
  (s.expression.part gap).append s.label.piece

/-- An item with its alias behind a blank is a piece. -/
theorem piece (space : Space) : Piece (s.lexemes space.1) := by
  obtain ⟨t, ls, -, hgap⟩ := s.expression.exists_lexemes space.blank
  apply (s.part space.blank).piece
  exact ⟨t, ls ++ s.label.lexemes, congrArg (· ++ s.label.lexemes) hgap⟩

end Selection

/-! ## What an item holds outside parentheses -/

/-- What an item without an alias holds: no comma and no AS or keyword outside parentheses. -/
def Inert (p : Placed) : Prop :=
  p.isTop .comma = false ∧ ∀ word ∈ "AS" :: Token.keywords, p.isTopKeyword word = false

/-- Inside parentheses a token is inert. -/
theorem inert_of_depth_pos {p : Placed} (h : 0 < p.depth) : Inert p := by
  have hdepth : p.depth ≠ 0 := Nat.ne_of_gt h
  exact ⟨by simp [Placed.isTop, hdepth], fun word _ => by simp [Placed.isTopKeyword, hdepth]⟩

/-- A token that is neither a comma nor a word is inert. -/
theorem inert_of_kind {p : Placed} (hcomma : p.token.kind ≠ .comma) (hword : p.token.kind ≠ .word) :
    Inert p :=
  ⟨by simp [Placed.isTop, hcomma], fun word _ => Placed.isTopKeyword_of_kind_ne word hword⟩

/-- A name is inert. -/
theorem Name.inert (n : Name) (gap : List Char) : Inert (top ⟨gap, n.token⟩) := by
  refine ⟨?_, fun word hword => Placed.isTopKeyword_of_isFreeName n.isFreeName hword⟩
  cases n <;> rfl

/-- A name is no dot. -/
theorem Name.kind_ne_dot (n : Name) : n.token.kind ≠ .dot := by
  cases n <;> simp [token]

theorem Name.length_text_pos (n : Name) : 0 < n.token.text.length := by
  cases n <;> simp [token, Token.inQuotes]

theorem Path.inert (p : Path) (gap : List Char) : ∀ q ∈ run (p.lexemes gap), Inert q := by
  rw [p.run_eq]
  intro q hq
  obtain ⟨l, hl, rfl⟩ := List.mem_map.1 hq
  rcases List.mem_cons.1 hl with rfl | hl
  · exact p.first.inert gap
  · obtain ⟨s, -, hl⟩ := List.mem_flatMap.1 hl
    rw [Step.lexemes, List.mem_cons, List.mem_singleton] at hl
    rcases hl with rfl | rfl
    · exact inert_of_kind (by simp [top]) (by simp [top])
    · exact s.name.inert s.after.1

theorem Group.inert (g : Group) (gap : Blank) : ∀ q ∈ run (g.lexemes gap.1), Inert q := by
  rw [g.run_eq]
  intro q hq
  simp only [List.mem_cons, List.mem_append, List.not_mem_nil, or_false] at hq
  rcases hq with rfl | hq | rfl
  · exact inert_of_kind (by simp [top]) (by simp [top])
  · exact inert_of_depth_pos (g.depth_pos hq)
  · exact inert_of_kind (by simp [top]) (by simp [top])

/-- The run of a call is its path and then its group. -/
theorem Operand.run_call (p : Path) (before : Blank) (g : Group) (gap : List Char) :
    run ((call p before g).lexemes gap) = run (p.lexemes gap) ++ run (g.lexemes before.1) :=
  run_append (balanced_of_no_paren fun l hl => (p.kinds gap l hl).1)

/-- The run of a literal is its one token. -/
theorem Operand.run_literal {kind : TokenKind} (t : Single kind)
    (value : kind = .number ∨ kind = .string) (gap : Blank) :
    run ((literal kind t value).lexemes gap.1) = [top ⟨gap.1, ⟨kind, t.text⟩⟩] := by
  rw [lexemes, t.lexemes_eq, run_cons (by rcases value with rfl | rfl <;> simp [IsParen])]
  rfl

theorem Operand.inert (o : Operand) (gap : Blank) : ∀ q ∈ run (o.lexemes gap.1), Inert q := by
  cases o with
  | path p => exact p.inert gap.1
  | literal kind t value =>
    rw [run_literal]
    intro q hq
    obtain rfl := List.mem_singleton.1 hq
    rcases value with rfl | rfl <;> exact inert_of_kind (by simp [top]) (by simp [top])
  | group g => exact g.inert gap
  | call p before g =>
    rw [run_call]
    intro q hq
    rcases List.mem_append.1 hq with hq | hq
    · exact p.inert gap.1 q hq
    · exact g.inert before q hq

theorem Operator.inert (o : Operator) (gap : List Char) : Inert (top ⟨gap, o.token⟩) := by
  cases o with
  | star => exact inert_of_kind (by simp [top, token]) (by simp [top, token])
  | sign t => exact inert_of_kind (by simp [top, token]) (by simp [top, token])
  | word n bare => exact n.inert gap

theorem Operator.kind_ne_dot (o : Operator) : o.token.kind ≠ .dot := by
  cases o with
  | star => simp [token]
  | sign t => simp [token]
  | word n bare => simp [token, bare]

/-- The run of a link is its operator and then its operand. -/
theorem Link.run_eq (k : Link) :
    run k.lexemes = top ⟨k.before.1, k.operator.token⟩ :: run (k.operand.lexemes k.after.1) :=
  run_cons (k.operator.not_isParen k.before.1)

/-- A link closes all its parentheses, so what follows is placed by itself. -/
theorem Link.run_append (k : Link) (ls : List Lexeme) :
    run (k.lexemes ++ ls) = run k.lexemes ++ run ls :=
  Written.run_append k.piece.balanced

theorem Link.inert (k : Link) : ∀ q ∈ run k.lexemes, Inert q := by
  rw [k.run_eq]
  intro q hq
  rcases List.mem_cons.1 hq with rfl | hq
  · exact k.operator.inert k.before.1
  · exact k.operand.inert k.after.blank q hq

/-- The links of an expression are placed one by one. -/
theorem run_links (ks : List Link) :
    run (ks.flatMap Link.lexemes) = ks.flatMap fun k => run k.lexemes := by
  induction ks with
  | nil => rfl
  | cons k ks ih => rw [List.flatMap_cons, k.run_append, ih, List.flatMap_cons]

namespace Expression

variable (e : Expression) (gap : Blank)

/-- The run of an expression is its first operand and then its links. -/
theorem run_eq : run (e.lexemes gap.1) =
    run (e.head.lexemes gap.1) ++ e.links.flatMap fun k => run k.lexemes := by
  rw [lexemes, run_append (e.head.part gap).balanced, run_links]

/-- Every token of an expression is inert. -/
theorem inert : ∀ q ∈ run (e.lexemes gap.1), Inert q := by
  rw [e.run_eq]
  intro q hq
  rcases List.mem_append.1 hq with hq | hq
  · exact e.head.inert gap q hq
  · obtain ⟨k, -, hq⟩ := List.mem_flatMap.1 hq
    exact k.inert q hq

end Expression

/-! ## Last lexemes -/

/-- Whether a run looks as if it had an alias is a matter of its last two tokens. -/
theorem endsInAlias_pair (r : Run) (p q : Placed) : SelectItem.endsInAlias (r ++ [p, q]) =
    (q.depth == 0 && q.token.isName && !SelectItem.isReserved q.token &&
      SelectItem.endsOperand p.token) := by
  simp [SelectItem.endsInAlias]

/-- Only a name can be an alias. -/
theorem endsInAlias_of_not_isName {r : Run} {z : Placed} (h : z.token.isName = false) :
    SelectItem.endsInAlias (r ++ [z]) = false := by
  rcases List.eq_nil_or_concat r with rfl | ⟨init, p, rfl⟩
  · rfl
  · rw [List.concat_eq_append, List.append_assoc, List.singleton_append, endsInAlias_pair, h]
    simp

/-- An operand is a name by itself, or ends in a lexeme that ends an operand and is no name, or is a
name behind a dot. -/
theorem Operand.shape (o : Operand) (gap : Blank) :
    (o.isName = true ∧ ∃ n : Name, run (o.lexemes gap.1) = [top ⟨gap.1, n.token⟩]) ∨
      (o.isName = false ∧ ∃ init z, run (o.lexemes gap.1) = init ++ [z] ∧
        SelectItem.endsOperand z.token = true ∧
        (z.token.isName = true → ∃ init' d, init = init' ++ [d] ∧ d.token.kind = .dot)) := by
  have hgroup : ∀ (g : Group) (before : Blank) (front : Run), ∃ init z,
      front ++ run (g.lexemes before.1) = init ++ [z] ∧ SelectItem.endsOperand z.token = true ∧
        (z.token.isName = true → ∃ init' d, init = init' ++ [d] ∧ d.token.kind = .dot) := by
    intro g before front
    refine ⟨front ++ top ⟨before.1, ⟨.leftParen, ['(']⟩⟩ :: Run.place 1 g.inside,
      top ⟨g.gap, ⟨.rightParen, [')']⟩⟩, ?_, rfl, ?_⟩
    · rw [g.run_eq]
      simp
    · rintro ⟨⟩
  cases o with
  | path p =>
    obtain ⟨first, steps⟩ := p
    rcases List.eq_nil_or_concat steps with rfl | ⟨init, s, rfl⟩
    · exact Or.inl ⟨rfl, first, Path.run_eq _ _⟩
    · refine Or.inr ⟨by simp [isName], ?_⟩
      refine ⟨run (Path.lexemes gap.1 ⟨first, init⟩) ++ [top ⟨s.before.1, ⟨.dot, ['.']⟩⟩],
        top ⟨s.after.1, s.name.token⟩, ?_, s.name.endsOperand, fun _ => ⟨_, _, rfl, rfl⟩⟩
      rw [lexemes, Path.run_eq, Path.run_eq]
      simp [Path.lexemes, Step.lexemes]
  | literal kind t value =>
    refine Or.inr ⟨rfl, [], top ⟨gap.1, ⟨kind, t.text⟩⟩, ?_, ?_, ?_⟩
    · exact run_literal t value gap
    · rcases value with rfl | rfl <;> rfl
    · rcases value with rfl | rfl <;> rintro ⟨⟩
  | group g => exact Or.inr ⟨rfl, hgroup g gap []⟩
  | call p before g =>
    refine Or.inr ⟨rfl, ?_⟩
    rw [run_call]
    exact hgroup g before _

/-- Behind anything, an operand other than a name by itself does not look like an alias. -/
theorem Operand.endsInAlias_append (o : Operand) (gap : Blank) (front : Run)
    (h : o.isName = false) : SelectItem.endsInAlias (front ++ run (o.lexemes gap.1)) = false := by
  rcases o.shape gap with ⟨hname, -⟩ | ⟨-, init, z, hrun, -, hz⟩
  · rw [h] at hname
    cases hname
  · rw [hrun, ← List.append_assoc]
    cases hname : z.token.isName with
    | false => exact endsInAlias_of_not_isName hname
    | true =>
      obtain ⟨init', d, rfl, hd⟩ := hz hname
      rw [← List.append_assoc, List.append_assoc, List.singleton_append, endsInAlias_pair]
      simp [SelectItem.endsOperand, hd]

/-- An operand ends in a lexeme that ends an operand. -/
theorem Operand.exists_last (o : Operand) (gap : Blank) :
    ∃ init z, run (o.lexemes gap.1) = init ++ [z] ∧ SelectItem.endsOperand z.token = true := by
  rcases o.shape gap with ⟨-, n, hrun⟩ | ⟨-, init, z, hrun, hz, -⟩
  · exact ⟨[], _, hrun, n.endsOperand⟩
  · exact ⟨init, z, hrun, hz⟩

/-- By its token an operator ends an operand unless it is a sign. -/
theorem Operator.endsOperand_token (o : Operator) :
    SelectItem.endsOperand o.token = !o.isSign := by
  cases o with
  | star => rfl
  | sign t => rfl
  | word n bare => exact n.endsOperand

namespace Expression

variable (e : Expression) (gap : Blank)

/-- An expression is one operand, or something with an operator and an operand behind it. -/
theorem run_cases :
    (e.links = [] ∧ run (e.lexemes gap.1) = run (e.head.lexemes gap.1)) ∨
      ∃ front k, e.links.getLast? = some k ∧ run (e.lexemes gap.1) =
        front ++ top ⟨k.before.1, k.operator.token⟩ :: run (k.operand.lexemes k.after.1) := by
  rw [e.run_eq]
  rcases List.eq_nil_or_concat e.links with hnil | ⟨init, k, hlinks⟩
  · exact Or.inl ⟨hnil, by rw [hnil, List.flatMap_nil, List.append_nil]⟩
  · refine Or.inr ⟨run (e.head.lexemes gap.1) ++ init.flatMap fun k => run k.lexemes, k, ?_, ?_⟩
    · simp [hlinks]
    · simp [hlinks, k.run_eq]

/-- The last token of an expression ends an operand. -/
theorem exists_last :
    ∃ init z, run (e.lexemes gap.1) = init ++ [z] ∧ SelectItem.endsOperand z.token = true := by
  rcases e.run_cases gap with ⟨-, hrun⟩ | ⟨front, k, -, hrun⟩
  · rw [hrun]
    exact e.head.exists_last gap
  · obtain ⟨init, z, hoperand, hz⟩ := k.operand.exists_last k.after.blank
    rw [Space.val_blank] at hoperand
    refine ⟨front ++ top ⟨k.before.1, k.operator.token⟩ :: init, z, ?_, hz⟩
    rw [hrun, hoperand]
    simp

/-- Which expressions look as if they had an alias. -/
theorem endsInAlias_run :
    SelectItem.endsInAlias (run (e.lexemes gap.1)) = e.endsLikeAlias := by
  rcases e.run_cases gap with ⟨hnil, hrun⟩ | ⟨front, k, hlast, hrun⟩
  · rw [hrun, endsLikeAlias, hnil]
    cases hname : e.head.isName with
    | false => exact e.head.endsInAlias_append gap [] hname
    | true =>
      rcases e.head.shape gap with ⟨-, n, hone⟩ | ⟨hno, -⟩
      · rw [hone]
        rfl
      · rw [hname] at hno
        cases hno
  · rw [hrun, endsLikeAlias, hlast, Option.any_some]
    cases hname : k.operand.isName with
    | false =>
      have hno := k.operand.endsInAlias_append k.after.blank
        (front ++ [top ⟨k.before.1, k.operator.token⟩]) hname
      rw [List.append_assoc] at hno
      exact hno
    | true =>
      rcases k.operand.shape k.after.blank with ⟨-, n, hone⟩ | ⟨hno, -⟩
      · rw [Space.val_blank] at hone
        rw [hone, endsInAlias_pair]
        simp [top, n.kind, n.isReserved, k.operator.endsOperand_token]
      · rw [hname] at hno
        cases hno

end Expression

/-! ## Columns -/

/-- Where no AS stands behind its first lexeme, an item that looks as if it had an alias loses its
last lexeme, and any other item loses nothing. -/
theorem operand_of_no_as {r : Run} (hno : ∀ q ∈ r.tail, q.isTopKeyword "AS" = false) :
    SelectItem.operand r = if SelectItem.endsInAlias r then r.dropLast else r := by
  cases r with
  | nil => rfl
  | cons p ps =>
    have hany : ps.any (·.isTopKeyword "AS") = false := by
      rw [List.any_eq_false]
      intro q hq
      simp [hno q hq]
    simp only [SelectItem.operand, hany, Bool.false_eq_true, if_false]

namespace Operand

variable (o : Operand) (gap : Blank)

/-- The gap in front of an operand is no part of its column. -/
theorem column_eq_run : o.column = Run.unqualifiedText (run (o.lexemes gap.1)) := by
  obtain ⟨t, ls, hnone, hgap⟩ := o.exists_lexemes gap
  rw [column, hnone, hgap, run_eq_withGap gap.1, Run.unqualifiedText_withGap]

/-- Without its qualifiers, a path is its last name. -/
theorem column_path (p : Path) : (path p).column = p.last.token.text := by
  rw [column, lexemes, ← SelectItem.text_unqualify, p.unqualify_run]
  simp [Run.text, top]

theorem run_ne_nil : run (o.lexemes gap.1) ≠ [] := by
  obtain ⟨init, z, hrun, -⟩ := o.exists_last gap
  simp [hrun]

theorem headGap_run : Run.headGap (run (o.lexemes gap.1)) = gap.1 := by
  obtain ⟨t, ls, -, hgap⟩ := o.exists_lexemes gap
  have hne := o.run_ne_nil gap
  rw [hgap, run_eq_withGap] at hne ⊢
  apply SelectItem.headGap_withGap
  intro hnil
  rw [hnil] at hne
  exact hne rfl

/-- No operand starts with a dot. -/
theorem head_kind : ∀ p ∈ (run (o.lexemes gap.1)).head?, p.token.kind ≠ .dot := by
  cases o with
  | path p =>
    rw [lexemes, p.run_eq]
    simpa [Path.lexemes, top] using p.first.kind_ne_dot
  | literal kind t value =>
    rw [run_literal]
    rcases value with rfl | rfl <;> simp [top]
  | group g => simp [lexemes, g.run_eq, top]
  | call p before g =>
    rw [run_call, p.run_eq]
    simpa [Path.lexemes, top] using p.first.kind_ne_dot

/-- An operand starts with no reserved word. -/
theorem isReserved_head :
    ∀ p ∈ (run (o.lexemes gap.1)).head?, SelectItem.isReserved p.token = false := by
  cases o with
  | path p =>
    rw [lexemes, p.run_eq]
    simpa [Path.lexemes, top] using p.first.isReserved
  | literal kind t value =>
    rw [run_literal]
    rcases value with rfl | rfl <;> simp [top, SelectItem.isReserved, Token.isKeyword]
  | group g => simp [lexemes, g.run_eq, top, SelectItem.isReserved, Token.isKeyword]
  | call p before g =>
    rw [run_call, p.run_eq]
    simpa [Path.lexemes, top] using p.first.isReserved

theorem last_kind : ∀ p ∈ (run (o.lexemes gap.1)).getLast?, p.token.kind ≠ .dot := by
  obtain ⟨init, z, hrun, hz⟩ := o.exists_last gap
  intro p hp hkind
  obtain rfl : z = p := by simpa [hrun] using hp
  simp [SelectItem.endsOperand, hkind] at hz

end Operand

namespace Link

variable (k : Link)

theorem run_ne_nil : run k.lexemes ≠ [] := by
  simp [k.run_eq]

theorem headGap_run : Run.headGap (run k.lexemes) = k.before.1 := by
  rw [k.run_eq]
  rfl

/-- No link starts with a dot. -/
theorem head_kind : ∀ p ∈ (run k.lexemes).head?, p.token.kind ≠ .dot := by
  simpa [k.run_eq, top] using k.operator.kind_ne_dot

theorem last_kind : ∀ p ∈ (run k.lexemes).getLast?, p.token.kind ≠ .dot := by
  have hne : run (k.operand.lexemes k.after.1) ≠ [] := k.operand.run_ne_nil k.after.blank
  rw [k.run_eq, List.getLast?_cons_of_ne_nil hne]
  exact k.operand.last_kind k.after.blank

/-- Without qualifiers, a link is its operator and the column of its operand. -/
theorem unqualifiedText_run : Run.unqualifiedText (run k.lexemes) =
    k.operator.token.text ++ (k.after.1 ++ k.operand.column) := by
  have hlast : ∀ p ∈ [top ⟨k.before.1, k.operator.token⟩].getLast?, p.token.kind ≠ .dot := by
    simpa [top] using k.operator.kind_ne_dot
  have happend := Run.unqualifiedText_append (by simp) hlast (k.operand.head_kind k.after.blank)
  rw [k.operand.headGap_run, ← k.operand.column_eq_run, Run.unqualifiedText_singleton] at happend
  rw [k.run_eq]
  exact happend

end Link

namespace Expression

variable (e : Expression) (gap : Blank)

/-- The blank text in front of an expression does not matter. -/
theorem run_eq_withGap :
    run (e.lexemes gap.1) = SelectItem.withGap gap.1 (run (e.lexemes [])) := by
  obtain ⟨t, ls, hnone, hgap⟩ := e.exists_lexemes gap
  rw [hnone, hgap]
  exact Written.run_eq_withGap gap.1 t ls

/-- The gap in front of an expression is no part of its column. -/
theorem column_eq_run : e.column = Run.unqualifiedText (run (e.lexemes gap.1)) := by
  rw [run_eq_withGap, Run.unqualifiedText_withGap, column]

/-- The gap in front of an expression is no part of its cut column. -/
theorem cutColumn_eq_run :
    e.cutColumn = Run.unqualifiedText (run (e.lexemes gap.1)).dropLast := by
  have hdrop : ∀ r : Run, (SelectItem.withGap gap.1 r).dropLast =
      SelectItem.withGap gap.1 r.dropLast := by
    rintro (- | ⟨p, - | ⟨q, r⟩⟩) <;> rfl
  rw [run_eq_withGap, hdrop, Run.unqualifiedText_withGap, cutColumn]

/-- The column of an expression, operand by operand. -/
theorem column_eq : e.column = e.head.column ++ e.links.flatMap fun k =>
    k.before.1 ++ (k.operator.token.text ++ (k.after.1 ++ k.operand.column)) := by
  have hgeneral : ∀ (ks : List Link) (r : Run), r ≠ [] →
      (∀ p ∈ r.getLast?, p.token.kind ≠ .dot) →
      Run.unqualifiedText (r ++ ks.flatMap fun k => run k.lexemes) =
        Run.unqualifiedText r ++ ks.flatMap fun k =>
          k.before.1 ++ (k.operator.token.text ++ (k.after.1 ++ k.operand.column)) := by
    intro ks
    induction ks with
    | nil => simp
    | cons k ks ih =>
      intro r hne hlast
      have hk := Run.unqualifiedText_append hne hlast k.head_kind
      rw [List.flatMap_cons, ← List.append_assoc, ih _ (by simp [hne]), hk,
        k.unqualifiedText_run]
      · simp [k.headGap_run]
      · rw [List.getLast?_append_of_ne_nil _ k.run_ne_nil]
        exact k.last_kind
  let gap : Blank := ⟨[], by simp⟩
  rw [e.column_eq_run gap, e.run_eq gap]
  exact hgeneral e.links _ (e.head.run_ne_nil gap) (e.head.last_kind gap)

/-- An expression that looks as if it had an alias is cut. -/
theorem cutColumn_ne (h : e.endsLikeAlias = true) : e.cutColumn ≠ e.column := by
  let gap : Blank := ⟨[], by simp⟩
  rcases e.run_cases gap with ⟨hnil, -⟩ | ⟨front, k, hlast, hrun⟩
  · simp [endsLikeAlias, hnil] at h
  · have hname : k.operand.isName = true := by
      rw [endsLikeAlias, hlast, Option.any_some, Bool.and_eq_true] at h
      exact h.1
    rcases k.operand.shape k.after.blank with ⟨-, n, hone⟩ | ⟨hno, -⟩
    · rw [Space.val_blank] at hone
      rw [hone, List.append_cons] at hrun
      have hlast : ∀ p ∈ (front ++ [top ⟨k.before.1, k.operator.token⟩]).getLast?,
          p.token.kind ≠ .dot := by
        simpa [top] using k.operator.kind_ne_dot
      rw [e.column_eq_run gap, e.cutColumn_eq_run gap, hrun, List.dropLast_concat]
      exact Run.unqualifiedText_ne_append (by simp) hlast n.kind_ne_dot
        (List.length_pos_iff.1 n.length_text_pos)
    · rw [hname] at hno
      cases hno

end Expression

/-- The column that is read from an expression and its alias. -/
theorem Selection.column_run (s : Selection) (gap : Blank) :
    SelectItem.column (run (s.lexemes gap.1)) = s.column := by
  have hno : ∀ q ∈ run (s.expression.lexemes gap.1), q.isTopKeyword "AS" = false :=
    fun q hq => (s.expression.inert gap q hq).2 "AS" List.mem_cons_self
  have happend : run (s.lexemes gap.1) =
      run (s.expression.lexemes gap.1) ++ run s.label.lexemes :=
    run_append (s.expression.part gap).balanced
  have hlast := s.expression.exists_last gap
  have hends := s.expression.endsInAlias_run gap
  have hkept : (s.label = .none → s.expression.endsLikeAlias = false) →
      SelectItem.column (run (s.lexemes gap.1)) = s.expression.column := by
    intro hnone
    rw [SelectItem.column, SelectItem.text_unqualify, happend,
      s.label.operand_append hno hlast fun h => hends.trans (hnone h),
      s.expression.column_eq_run gap]
  rw [column]
  cases hlabel : s.label with
  | none =>
    cases hcut : s.expression.endsLikeAlias with
    | false => simpa using hkept fun _ => hcut
    | true =>
      rw [hlabel] at happend
      have hnone : run Alias.none.lexemes = [] := rfl
      rw [SelectItem.column, SelectItem.text_unqualify, happend, hnone, List.append_nil,
        operand_of_no_as fun q hq => hno q (List.mem_of_mem_tail hq), if_pos (hends.trans hcut),
        ← s.expression.cutColumn_eq_run gap]
      rfl
  | name space n => exact hkept (by simp [hlabel])
  | asName space word space' n => exact hkept (by simp [hlabel])

/-- An item stands for the column of its expression unless it has no alias and looks as if it had
one. -/
theorem Selection.column_eq_iff (s : Selection) : s.column = s.expression.column ↔
    (s.label = .none → s.expression.endsLikeAlias = false) := by
  rw [column]
  cases s.label with
  | none =>
    cases hcut : s.expression.endsLikeAlias with
    | false => simp
    | true => simpa using s.expression.cutColumn_ne hcut
  | name space n => simp
  | asName space word space' n => simp

end SelectAlgebra.Written
