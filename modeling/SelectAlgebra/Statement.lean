import SelectAlgebra.Token.Lexer

/-!
# Statements

A statement is a run of lexemes, each with the number of parentheses that are open around it.
Only at depth 0 does a semicolon end the statement, a comma separate two items or a keyword open
a clause; everything inside parentheses is left alone.

Main results:

- Theorem `Run.map_toLexeme_place`: a statement is made of the lexemes of its text.
- Theorems `Run.breakAt_append` and `Run.namePath?_append`: the parts of a run make up the run.
-/

namespace SelectAlgebra

/-- A lexeme and the number of parentheses open around it.  A parenthesis stands at the depth of
what surrounds the pair. -/
structure Placed extends Lexeme where
  depth : Nat
deriving DecidableEq

/-- Consecutive lexemes of a statement. -/
abbrev Run := List Placed

namespace Placed

/-- The lexeme stands outside all parentheses and its token is of the kind. -/
def isTop (kind : TokenKind) (p : Placed) : Bool :=
  p.depth == 0 && p.token.kind == kind

/-- The lexeme stands outside all parentheses and is the keyword. -/
def isTopKeyword (word : String) (p : Placed) : Bool :=
  p.depth == 0 && p.token.isKeyword word

end Placed

namespace Run

/-- Places lexemes that start with `depth` open parentheses.  A closing parenthesis without an
opening one changes nothing. -/
def place (depth : Nat) : List Lexeme → Run
  | [] => []
  | l :: ls =>
    match l.token.kind with
    | .leftParen => ⟨l, depth⟩ :: place (depth + 1) ls
    | .rightParen => ⟨l, depth - 1⟩ :: place (depth - 1) ls
    | _ => ⟨l, depth⟩ :: place depth ls

/-- The first statement of a text: its lexemes up to the first semicolon outside parentheses. -/
def ofText (cs : List Char) : Run :=
  (place 0 (Lexeme.ofText (Comment.strip cs))).takeWhile fun p => !p.isTop .semicolon

/-- The text from the start of the first token to the end of the last. -/
def text : Run → List Char
  | [] => []
  | p :: ps => p.token.text ++ ps.flatMap fun q => q.source

/-- The first token of the run is the keyword, outside parentheses. -/
def startsWith (word : String) (r : Run) : Bool :=
  r.head?.any (·.isTopKeyword word)

/-- The run without the keyword at its start, if it is there. -/
def skipKeyword (word : String) (r : Run) : Run :=
  if startsWith word r then r.tail else r

/-! ## Parts of a run -/

/-- Splits the run in front of the first place from which `p` holds. -/
def breakAt (p : Run → Bool) : Run → Run × Run
  | [] => ([], [])
  | a :: r => if p (a :: r) then ([], a :: r) else (a :: (breakAt p r).1, (breakAt p r).2)

/-- The parts of the run between its commas outside parentheses, empty parts included. -/
def segments (r : Run) : List Run :=
  r.splitOnP (·.isTop .comma)

/-- The items of a comma list: its parts that are not empty. -/
def items (r : Run) : List Run :=
  (segments r).filter fun s => !s.isEmpty

/-- Reads a name and any further names after dots.  Gives the lexemes read and those after. -/
def namePath? : Run → Option (Run × Run)
  | [] => none
  | p :: r => if p.token.isName then some (p :: (steps r).1, (steps r).2) else none
where
  /-- Reads as many pairs of a dot and a name as follow each other. -/
  steps : Run → Run × Run
    | d :: p :: r =>
      if d.token.kind = .dot ∧ p.token.isName = true then
        (d :: p :: (steps r).1, (steps r).2)
      else ([], d :: p :: r)
    | r => ([], r)

/-! ## Small facts -/

/-- Placing lexemes changes none of them. -/
theorem map_toLexeme_place (depth : Nat) (ls : List Lexeme) :
    (place depth ls).map Placed.toLexeme = ls := by
  induction ls generalizing depth with
  | nil => rfl
  | cons l ls ih =>
    rw [place]
    split <;> simp [ih]

/-- A run that starts with a keyword has a token. -/
theorem length_pos_of_startsWith {word : String} {r : Run} (h : startsWith word r = true) :
    0 < r.length := by
  cases r with
  | nil => simp [startsWith] at h
  | cons => simp

/-- Passing over a keyword makes no run longer. -/
theorem skipKeyword_length (word : String) (r : Run) : (skipKeyword word r).length ≤ r.length := by
  unfold skipKeyword
  split <;> simp

/-- A run that was broken is made up of its two parts. -/
theorem breakAt_append (p : Run → Bool) (r : Run) : (breakAt p r).1 ++ (breakAt p r).2 = r := by
  induction r with
  | nil => rfl
  | cons a r ih => rw [breakAt]; split <;> simp [ih]

/-- What stands from the break on is no longer than the run. -/
theorem breakAt_length (p : Run → Bool) (r : Run) : (breakAt p r).2.length ≤ r.length := by
  have h := congrArg List.length (breakAt_append p r)
  rw [List.length_append] at h
  omega

/-- A run is made up of the steps of a path and of what follows them. -/
theorem namePath?.steps_append (r : Run) : (steps r).1 ++ (steps r).2 = r := by
  fun_induction steps r <;> simp_all

/-- A run is made up of the path at its start and of what follows it. -/
theorem namePath?_append {r path rest : Run} (h : namePath? r = some (path, rest)) :
    path ++ rest = r := by
  unfold namePath? at h
  split at h
  · simp at h
  · split at h
    · simp only [Option.some.injEq, Prod.mk.injEq] at h
      rw [← h.1, ← h.2, List.cons_append, namePath?.steps_append]
    · simp at h

end Run

end SelectAlgebra
