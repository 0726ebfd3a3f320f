import SelectAlgebra.Proofs.Lists
import SelectAlgebra.Statement.Parts

/-!
# Recast lexemes

A statement is taken apart by what its tokens are: by their kinds, by the keywords among them and
by their depth.  A map of lexemes that keeps these is faithful.  Recasting every lexeme of a run by
a faithful map recasts the parts of the run, and what is read from one run is read from the other.

Main results:

- Theorem `Run.map_ofText`: recasting the lexemes of a text recasts its statement.
- Theorem `Run.breakAt_map`: a recast run is broken at the same place.
- Theorem `Clause.joinPhrase?_map`: a recast join phrase is one of the same kind.
- Theorem `Clause.body_map`: what a clause of a recast run holds.
- Theorem `Parts.ofRun?_map`: the parts of a recast statement.
-/

namespace SelectAlgebra

/-- The map keeps the depth of a lexeme, the kind of its token and the keywords that it is. -/
structure Placed.Faithful (f : Placed → Placed) : Prop where
  depth : ∀ p, (f p).depth = p.depth
  kind : ∀ p, (f p).token.kind = p.token.kind
  isKeyword : ∀ p word, (f p).token.isKeyword word = p.token.isKeyword word

variable {f : Placed → Placed}

namespace Placed.Faithful

/-- A faithful change keeps what stands outside parentheses. -/
theorem isTop (hf : Faithful f) (kind : TokenKind) (p : Placed) :
    (f p).isTop kind = p.isTop kind := by
  rw [Placed.isTop, Placed.isTop, hf.depth, hf.kind]

theorem isTopKeyword (hf : Faithful f) (word : String) (p : Placed) :
    (f p).isTopKeyword word = p.isTopKeyword word := by
  rw [Placed.isTopKeyword, Placed.isTopKeyword, hf.depth, hf.isKeyword]

theorem isName (hf : Faithful f) (p : Placed) : (f p).token.isName = p.token.isName := by
  rw [Token.isName, Token.isName, hf.kind]

end Placed.Faithful

open Placed (Faithful)

/-- The map of placed lexemes that recasts the lexeme and leaves its depth. -/
def Placed.recast (g : Lexeme → Lexeme) (p : Placed) : Placed :=
  ⟨g p.toLexeme, p.depth⟩

/-- A change of lexemes that keeps kinds and keywords is faithful. -/
theorem Placed.faithful_recast {g : Lexeme → Lexeme}
    (hkind : ∀ l, (g l).token.kind = l.token.kind)
    (hword : ∀ l word, (g l).token.isKeyword word = l.token.isKeyword word) :
    Faithful (recast g) where
  depth _ := rfl
  kind p := hkind p.toLexeme
  isKeyword p word := hword p.toLexeme word

/-! ## Runs -/

namespace Run

/-- Lexemes can be placed before or behind a change that keeps kinds. -/
theorem place_map {g : Lexeme → Lexeme} (hkind : ∀ l, (g l).token.kind = l.token.kind)
    (depth : Nat) (ls : List Lexeme) :
    place depth (ls.map g) = (place depth ls).map (Placed.recast g) := by
  induction ls generalizing depth with
  | nil => rfl
  | cons l ls ih =>
    rw [List.map_cons, place, place, hkind]
    split <;> simp [ih, Placed.recast]

/-- Recasting the lexemes of a text recasts its statement. -/
theorem map_ofText {g : Lexeme → Lexeme} (hkind : ∀ l, (g l).token.kind = l.token.kind)
    (cs : List Char) :
    (ofText cs).map (Placed.recast g) =
      (place 0 ((Lexeme.ofText (Comment.strip cs)).map g)).takeWhile
        fun p => !p.isTop .semicolon := by
  rw [place_map hkind, List.takeWhile_map, ofText]
  congr 2
  funext p
  simp [Placed.isTop, Placed.recast, hkind]

/-- A faithful change keeps the keyword at the start of a run. -/
theorem startsWith_map (hf : Faithful f) (word : String) (r : Run) :
    startsWith word (r.map f) = startsWith word r := by
  cases r with
  | nil => rfl
  | cons p r => simp [startsWith, hf.isTopKeyword]

theorem skipKeyword_map (hf : Faithful f) (word : String) (r : Run) :
    skipKeyword word (r.map f) = (skipKeyword word r).map f := by
  rw [skipKeyword, skipKeyword, startsWith_map hf]
  split
  · rw [List.map_tail]
  · rfl

/-- A recast run is broken at the same place. -/
theorem breakAt_map {p : Run → Bool} (hp : ∀ r, p (r.map f) = p r) (r : Run) :
    breakAt p (r.map f) = ((breakAt p r).1.map f, (breakAt p r).2.map f) := by
  induction r with
  | nil => rfl
  | cons a r ih =>
    have ha := hp (a :: r)
    rw [List.map_cons] at ha
    rw [List.map_cons, breakAt, breakAt, ha, ih]
    split <;> rfl

theorem segments_map (hf : Faithful f) (r : Run) :
    segments (r.map f) = (segments r).map (List.map f) := by
  induction r with
  | nil => rfl
  | cons p r ih =>
    rw [segments] at ih ⊢
    rw [List.map_cons, List.splitOnP_cons_eq_if_modifyHead, hf.isTop, ih, segments, segments,
      List.splitOnP_cons_eq_if_modifyHead]
    split
    · rfl
    · cases List.splitOnP (fun q : Placed => q.isTop .comma) r with
      | nil => rfl
      | cons s ss => rfl

/-- A faithful change keeps the items of a run. -/
theorem items_map (hf : Faithful f) (r : Run) :
    items (r.map f) = (items r).map (List.map f) := by
  rw [items, items, segments_map hf, List.filter_map]
  congr 2
  funext s
  simp

theorem namePath?.steps_map (hf : Faithful f) (r : Run) :
    steps (r.map f) = ((steps r).1.map f, (steps r).2.map f) := by
  fun_induction steps r with
  | case1 d p r hdot ih => simp [steps, hf.kind, hf.isName, hdot, ih]
  | case2 d p r hdot => simp [steps, hf.kind, hf.isName, hdot]
  | case3 r hr =>
    match r, hr with
    | [], _ => rfl
    | [_], _ => rfl
    | d :: p :: r, hr => exact absurd rfl (hr d p r)

/-- A faithful change keeps the path at the start of a run. -/
theorem namePath?_map (hf : Faithful f) (r : Run) :
    namePath? (r.map f) = (namePath? r).map fun x => (x.1.map f, x.2.map f) := by
  cases r with
  | nil => rfl
  | cons p r =>
    rw [List.map_cons, namePath?, namePath?, hf.isName, namePath?.steps_map hf]
    split <;> rfl

end Run

/-! ## Clauses -/

namespace Clause

theorem startsWithPair_map (hf : Faithful f) (first second : String) (r : Run) :
    startsWithPair first second (r.map f) = startsWithPair first second r := by
  rw [startsWithPair, startsWithPair, ← List.map_tail, Run.startsWith_map hf,
    Run.startsWith_map hf]

theorem joinKind?_map (hf : Faithful f) (r : Run) : joinKind? (r.map f) = joinKind? r := by
  simp only [joinKind?, Run.startsWith_map hf]

theorem skipOuter_map (hf : Faithful f) (kind : JoinKind) (r : Run) :
    skipOuter kind (r.map f) = (skipOuter kind r).map f := by
  unfold skipOuter
  split
  · rfl
  · exact Run.skipKeyword_map hf "OUTER" r

/-- A recast join phrase is one of the same kind. -/
theorem joinPhrase?_map (hf : Faithful f) (r : Run) :
    joinPhrase? (r.map f) = (joinPhrase? r).map fun x => (x.1, x.2.map f) := by
  rw [joinPhrase?, joinPhrase?, Run.startsWith_map hf, joinKind?_map hf, ← List.map_tail]
  split
  · rfl
  · cases joinKind? r with
    | none => rfl
    | some kind =>
      dsimp only
      rw [skipOuter_map hf, Run.startsWith_map hf, ← List.map_tail]
      split <;> rfl

theorem opens_map (hf : Faithful f) (c : Clause) (r : Run) : c.opens (r.map f) = c.opens r := by
  cases c with
  | join => rw [opens, opens, joinPhrase?_map hf, Option.isSome_map]
  | condition | having => exact Run.startsWith_map hf _ r
  | grouping | ordering => exact startsWithPair_map hf _ _ r

/-- A faithful change keeps where one of several clauses opens. -/
theorem opensAny_map (hf : Faithful f) (cs : List Clause) (r : Run) :
    opensAny cs (r.map f) = opensAny cs r := by
  simp only [opensAny, opens_map hf]

/-- What a clause of a recast run holds. -/
theorem body_map (hf : Faithful f) (c : Clause) (r : Run) :
    c.body (r.map f) = (c.body r).map f := by
  simp only [body]
  rw [Run.breakAt_map (opens_map hf c), ← List.map_drop,
    Run.breakAt_map (opensAny_map hf c.enders)]

end Clause

/-! ## Parts of a statement -/

namespace Parts

/-- The parts with every lexeme recast. -/
def recast (f : Placed → Placed) (s : Parts) : Parts :=
  ⟨s.distinct, s.selected.map f, s.sources.map f, s.clauses.map f⟩

/-- A faithful change keeps the quantifier. -/
theorem quantifier_map (hf : Faithful f) (r : Run) :
    quantifier (r.map f) = ((quantifier r).1, (quantifier r).2.map f) := by
  cases r with
  | nil => rfl
  | cons p r =>
    rw [List.map_cons, quantifier, quantifier, hf.isKeyword, hf.isKeyword]
    split
    · rfl
    · split <;> rfl

/-- The parts of a recast statement. -/
theorem ofRun?_map (hf : Faithful f) (r : Run) :
    ofRun? (r.map f) = (ofRun? r).map (recast f) := by
  cases r with
  | nil => rfl
  | cons p r =>
    rw [List.map_cons, ofRun?, ofRun?, hf.isKeyword]
    split
    · simp only [ofList?]
      rw [quantifier_map hf, Run.breakAt_map (Run.startsWith_map hf "FROM")]
      cases (Run.breakAt (Run.startsWith "FROM") (quantifier r).2).2 with
      | nil => rfl
      | cons fromWord behind =>
        simp only [List.map_cons]
        rw [Run.breakAt_map (Clause.opensAny_map hf Clause.all)]
        rfl
    · rfl

end Parts

end SelectAlgebra
