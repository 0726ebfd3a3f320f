import SelectAlgebra.Proofs.Checked.Access

/-!
# Reading tokens with checked offsets

The tokens of a text, read with byte offsets: what is left of the text is kept, and where a token
starts and stops is a difference of lengths.  No offset is ever inside a character, no difference
is negative, and every token shortens what is left.

Main results:

- Theorem `quotedRest_eq`: the text behind a quoted run is found from quote to quote.
- Theorem `tokens_eq`: all tokens of a text are read.
- Theorem `first?_eq`: the first token of a text is read.
-/

namespace SelectAlgebra

namespace Checked

/-! ## Quoted runs -/

/-- The byte offset at which a character occurs first. -/
def offsetOf? (x : Char) : List Char → Option Nat
  | [] => none
  | c :: cs => if c = x then some 0 else (offsetOf? x cs).map (c.utf8Size + ·)

/-- The text behind a quoted run, of which the opening quote has been read.  The search goes on
behind a quote that is written twice. -/
def quotedRest (quote : Char) (rest : List Char) : Access (List Char) :=
  match offsetOf? quote rest with
  | none => .ok []
  | some i => do
    let after ← sliceFrom rest (i + quote.utf8Size)
    if after.head? = some quote then
      let next ← sliceFrom after quote.utf8Size
      if next.length < rest.length then quotedRest quote next else .error .stuck
    else .ok after
termination_by rest.length

/-- A character that does not stand in a text has no offset. -/
theorem offsetOf?_of_not_mem {x : Char} {cs : List Char} (h : x ∉ cs) : offsetOf? x cs = none := by
  induction cs with
  | nil => rfl
  | cons c cs ih =>
    rw [List.mem_cons, not_or] at h
    rw [offsetOf?, if_neg (Ne.symm h.1), ih h.2, Option.map_none]

/-- A character is found behind the first part that does not hold it. -/
theorem offsetOf?_append {x : Char} {a : List Char} (b : List Char) (h : x ∉ a) :
    offsetOf? x (a ++ x :: b) = some (byteLength a) := by
  induction a with
  | nil => rw [List.nil_append, offsetOf?, if_pos rfl, byteLength_nil]
  | cons c a ih =>
    rw [List.mem_cons, not_or] at h
    rw [List.cons_append, offsetOf?, if_neg (Ne.symm h.1), ih h.2, Option.map_some,
      byteLength_cons]

/-- Up to the first quote, a run goes on. -/
theorem quotedTail_append_of_not_mem {quote : Char} {a : List Char} (cs : List Char)
    (h : quote ∉ a) : Token.quotedTail quote (a ++ cs) =
      (a ++ (Token.quotedTail quote cs).1, (Token.quotedTail quote cs).2) := by
  induction a with
  | nil => rfl
  | cons c a ih =>
    rw [List.mem_cons, not_or] at h
    have hc : c ≠ quote := Ne.symm h.1
    have htail := ih h.2
    rw [List.cons_append]
    cases hrest : a ++ cs with
    | nil =>
      rw [hrest] at htail
      obtain ⟨hrun, hleft⟩ := Prod.mk.inj htail
      rw [Token.quotedTail, List.cons_append, ← hrun, ← hleft]
    | cons d ds =>
      rw [hrest] at htail
      rw [Token.quotedTail, if_pos hc, htail]
      rfl

/-- The text behind a quoted run is found from quote to quote. -/
theorem quotedRest_eq (quote : Char) (rest : List Char) :
    quotedRest quote rest = .ok (Token.quotedTail quote rest).2 := by
  induction hn : rest.length using Nat.strongRecOn generalizing rest with
  | ind n ih =>
    rw [quotedRest]
    by_cases hmem : quote ∈ rest
    · rcases List.eq_append_cons_of_mem hmem with ⟨a, b, rfl, ha⟩
      have hafter : sliceFrom (a ++ quote :: b) (byteLength a + quote.utf8Size) = .ok b := by
        have := sliceFrom_append (a ++ [quote]) b
        rwa [List.append_assoc, List.singleton_append, byteLength_append] at this
      rw [offsetOf?_append b ha, quotedTail_append_of_not_mem _ ha]
      dsimp only
      rw [hafter, ok_bind]
      cases b with
      | nil => rfl
      | cons d ds =>
        by_cases hd : d = quote
        · subst hd
          have hnext : sliceFrom (d :: ds) d.utf8Size = .ok ds := sliceFrom_append [d] ds
          have hshorter : ds.length < (a ++ d :: d :: ds).length := by
            simp only [List.length_append, List.length_cons]
            omega
          rw [if_pos (by simp), hnext, ok_bind, if_pos hshorter,
            ih ds.length (hn ▸ hshorter) ds rfl]
          simp [Token.quotedTail]
        · rw [if_neg (by simpa using hd)]
          simp [Token.quotedTail, hd]
    · have hall := quotedTail_append_of_not_mem [] hmem
      rw [List.append_nil] at hall
      rw [offsetOf?_of_not_mem hmem, hall]
      rfl

/-! ## One token -/

/-- The kind of the token at the start of the text `c :: cs`, and the text after it. -/
def read (c : Char) (cs : List Char) : Access (TokenKind × List Char) :=
  if isQuote c then do
    let rest ← quotedRest c cs
    let length ← sub (byteLength (c :: cs)) (byteLength rest)
    let _ ← slice (c :: cs) 0 length
    .ok (if c = '\x27' then .string else .quotedName, rest)
  else .ok ((Token.read c cs).1.kind, (Token.read c cs).2)

/-- Reads the token at the start of the text `c :: cs`, which is what is left of the source from
the offset on. -/
def tokenFrom (source : List Char) (start : Nat) (c : Char) (cs : List Char) :
    Access (LocatedToken × List Char) := do
  let read ← read c cs
  let stop ← sub (byteLength source) (byteLength read.2)
  let text ← slice source start stop
  .ok (⟨⟨read.1, text⟩, start, stop⟩, read.2)

/-- The size of the second part can be taken off that of the whole. -/
theorem sub_append (a b : List Char) :
    sub (byteLength (a ++ b)) (byteLength b) = .ok (byteLength a) := by
  rw [byteLength_append, sub_add_right]

/-- The checked reading gives the token and the rest without a fault. -/
theorem read_eq (c : Char) (cs : List Char) :
    read c cs = .ok ((Token.read c cs).1.kind, (Token.read c cs).2) := by
  unfold read
  split
  · rename_i hquote
    have hrest := Token.quotedTail_append c cs
    have hlength : sub (byteLength (c :: cs)) (byteLength (Token.quotedTail c cs).2) =
        .ok (byteLength (c :: (Token.quotedTail c cs).1)) := by
      have := sub_append (c :: (Token.quotedTail c cs).1) (Token.quotedTail c cs).2
      rwa [List.cons_append, hrest] at this
    have htext : slice (c :: cs) 0 (byteLength (c :: (Token.quotedTail c cs).1)) =
        .ok (c :: (Token.quotedTail c cs).1) := by
      rw [slice_eq_ok_iff]
      refine ⟨[], (Token.quotedTail c cs).2, ?_, rfl, Nat.zero_add _⟩
      rw [List.nil_append, List.cons_append, hrest]
    rw [quotedRest_eq, ok_bind, hlength, ok_bind, htext, ok_bind, Token.read, if_pos hquote]
  · rfl

/-- A token is read at its offset without a fault. -/
theorem tokenFrom_eq (front : List Char) (c : Char) (cs : List Char) :
    tokenFrom (front ++ c :: cs) (byteLength front) c cs =
      .ok ((⟨[], (Token.read c cs).1⟩ : Lexeme).locate (byteLength front),
        (Token.read c cs).2) := by
  have hread := Token.read_append c cs
  have hstop : sub (byteLength (front ++ c :: cs)) (byteLength (Token.read c cs).2) =
      .ok (byteLength front + byteLength (Token.read c cs).1.text) := by
    rw [← hread, ← List.append_assoc, sub_append, byteLength_append]
  have htext : slice (front ++ c :: cs) (byteLength front)
      (byteLength front + byteLength (Token.read c cs).1.text) =
        .ok (Token.read c cs).1.text := by
    rw [slice_eq_ok_iff]
    exact ⟨front, (Token.read c cs).2, by rw [hread], rfl, rfl⟩
  rw [tokenFrom, read_eq, ok_bind, hstop, ok_bind, htext]
  rfl

/-! ## All tokens -/

/-- Reads the tokens of what is left of the source. -/
def tokensFrom (source rest : List Char) : Access (List LocatedToken) :=
  match Text.trimStart rest with
  | [] => .ok []
  | c :: cs => do
    let start ← sub (byteLength source) (byteLength (c :: cs))
    let token ← tokenFrom source start c cs
    if token.2.length < rest.length then
      let tokens ← tokensFrom source token.2
      .ok (token.1 :: tokens)
    else .error .stuck
termination_by rest.length

/-- Reads the tokens of a text. -/
def tokens (source : List Char) : Access (List LocatedToken) :=
  tokensFrom source source

/-- Reads the first token of a text. -/
def first? (source : List Char) : Access (Option LocatedToken) := do
  let rest := Text.trimStart source
  let start ← sub (byteLength source) (byteLength rest)
  match rest with
  | [] => .ok none
  | c :: cs => do
    let token ← tokenFrom source start c cs
    .ok (some token.1)

/-- The first lexeme of what is left is read as a token. -/
theorem tokenFrom_eq_of_next? (front : List Char) {rest after : List Char} {l : Lexeme}
    (h : Lexeme.next? rest = some (l, after)) :
    ∃ c cs, Text.trimStart rest = c :: cs ∧
      sub (byteLength (front ++ rest)) (byteLength (c :: cs)) =
        .ok (byteLength (front ++ l.gap)) ∧
      tokenFrom (front ++ rest) (byteLength (front ++ l.gap)) c cs =
        .ok (l.locate (byteLength front), after) := by
  rcases Lexeme.next?_eq_some h with ⟨c, cs, rfl, hgap, hc, hread⟩
  have hsplit : front ++ (l.gap ++ c :: cs) = (front ++ l.gap) ++ c :: cs :=
    (List.append_assoc front l.gap (c :: cs)).symm
  refine ⟨c, cs, ?_, ?_, ?_⟩
  · rw [Text.trimStart, List.dropWhile_append_of_pos hgap,
      List.dropWhile_cons_of_neg (by simp [hc])]
  · rw [hsplit, sub_append]
  · rw [hsplit, tokenFrom_eq, hread]
    simp only [Lexeme.locate, byteLength_append, byteLength_nil, Nat.add_zero]

/-- A text without a token is blank. -/
theorem trimStart_eq_nil_of_next? {cs : List Char} (h : Lexeme.next? cs = none) :
    Text.trimStart cs = [] := by
  unfold Lexeme.next? at h
  split at h
  · rename_i hnil
    exact hnil
  · cases h

/-- All tokens are read at their offsets without a fault. -/
theorem tokensFrom_eq (front rest : List Char) :
    tokensFrom (front ++ rest) rest =
      .ok (Lexeme.locateAll (byteLength front) (Lexeme.ofText rest)) := by
  induction hn : rest.length using Nat.strongRecOn generalizing front rest with
  | ind n ih =>
    rw [tokensFrom]
    cases h : Lexeme.next? rest with
    | none =>
      rw [trimStart_eq_nil_of_next? h, Lexeme.ofText_eq_nil h]
      rfl
    | some read =>
      rcases read with ⟨l, after⟩
      rcases tokenFrom_eq_of_next? front h with ⟨c, cs, hrest, hstart, htoken⟩
      have hshorter := Lexeme.next?_length h
      have hsource : front ++ rest = (front ++ l.source) ++ after := by
        rw [List.append_assoc, Lexeme.source_append h]
      have htail := ih after.length (hn ▸ hshorter) (front ++ l.source) after rfl
      rw [← hsource] at htail
      rw [hrest]
      dsimp only
      rw [hstart, ok_bind, htoken, ok_bind, if_pos hshorter, htail, ok_bind,
        Lexeme.ofText_eq_cons h, Lexeme.locateAll_cons, byteLength_append]

/-- All tokens of a text are read. -/
theorem tokens_eq (cs : List Char) : tokens cs = .ok (LocatedToken.ofText cs) :=
  tokensFrom_eq [] cs

/-- The first token of a text is read. -/
theorem first?_eq (cs : List Char) : first? cs = .ok (LocatedToken.first? cs) := by
  unfold first?
  dsimp only
  rw [LocatedToken.first?]
  cases h : Lexeme.next? cs with
  | none =>
    rw [trimStart_eq_nil_of_next? h]
    rw [byteLength_nil, ← Nat.add_zero (byteLength cs), sub_add_right]
    rfl
  | some read =>
    rcases read with ⟨l, after⟩
    rcases tokenFrom_eq_of_next? [] h with ⟨c, cs', hrest, hstart, htoken⟩
    rw [List.nil_append] at hstart htoken
    rw [hrest, hstart, ok_bind]
    dsimp only
    rw [htoken]
    rfl

end Checked

end SelectAlgebra
