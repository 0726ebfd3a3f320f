import SelectAlgebra.Statement

/-!
# Select items

An item of the select list may carry an alias, after AS or just behind the operand, and its
names may carry qualifiers.  The column that an item stands for is its text without both.
-/

namespace SelectAlgebra.SelectItem

/-! ## Aliases -/

/-- The words that are never an alias, and after which no alias stands. -/
def reservedWords : List String :=
  ["ALL", "AND", "AS", "BETWEEN", "CASE", "DISTINCT", "ELSE", "END", "FALSE", "IN", "IS", "LIKE",
    "NOT", "NULL", "OR", "THEN", "TRUE", "WHEN"]

/-- The token is a bare reserved word. -/
def isReserved (t : Token) : Bool :=
  reservedWords.any t.isKeyword

/-- The token can end an operand, so that a name behind it is an alias. -/
def endsOperand (t : Token) : Bool :=
  match t.kind with
  | .word => !isReserved t
  | .quotedName | .rightParen | .string | .number | .star => true
  | _ => false

/-- The last lexeme of the item is an alias without AS: a name outside parentheses that is not
reserved and stands directly behind an operand. -/
def endsInAlias (item : Run) : Bool :=
  match item.reverse with
  | last :: previous :: _ =>
    last.depth == 0 && last.token.isName && !isReserved last.token && endsOperand previous.token
  | _ => false

/-- The item without its alias.  An AS outside parentheses starts the alias unless it is the
first lexeme of the item. -/
def operand : Run → Run
  | [] => []
  | p :: ps =>
    if ps.any (·.isTopKeyword "AS") then p :: ps.takeWhile fun q => !q.isTopKeyword "AS"
    else if endsInAlias (p :: ps) then (p :: ps).dropLast
    else p :: ps

/-! ## Qualifiers -/

/-- The run with the given blank text in front of it. -/
def withGap (gap : List Char) : Run → Run
  | [] => []
  | p :: ps => { p with gap } :: ps

/-- The run without the qualifiers of its names: a name and a dot go when a name or a star
follows.  What follows takes over the blank text in front of the first qualifier that went. -/
def unqualify : Run → Run
  | p :: d :: q :: r =>
    if p.token.isName ∧ d.token.kind = .dot ∧ (q.token.isName ∨ q.token.kind = .star) then
      withGap p.gap (unqualify (q :: r))
    else p :: unqualify (d :: q :: r)
  | r => r

/-- The column that a select item stands for. -/
def column (item : Run) : List Char :=
  Run.text (unqualify (operand item))

end SelectAlgebra.SelectItem
