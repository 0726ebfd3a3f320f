import Mathlib.Data.String.Basic
import SelectAlgebra.Proofs.Token.Legible

/-!
# Where tokens stand

Every token of a text stands at a range of bytes.  The ranges follow each other, start and stop
between two characters, and hold what their tokens are made of; what lies outside of them is
blank.  So a text can be put together again from its tokens and from what stands between them.

Main results:

- Theorem `SliceAt.extract_eq`: a slice is what the text holds between two offsets.
- Theorem `Lexeme.exists_of_mem_locateAll`: a located token stands behind the lexemes in front.
- Theorem `LocatedToken.ofText_lossless`: no character of a text is lost between its tokens.
-/

namespace SelectAlgebra

/-! ## Lengths in bytes -/

@[simp]
theorem byteLength_nil : byteLength [] = 0 :=
  rfl

@[simp]
theorem byteLength_cons (c : Char) (cs : List Char) :
    byteLength (c :: cs) = c.utf8Size + byteLength cs :=
  rfl

@[simp]
theorem byteLength_append (cs ds : List Char) :
    byteLength (cs ++ ds) = byteLength cs + byteLength ds := by
  induction cs with
  | nil => simp
  | cons c cs ih => rw [List.cons_append, byteLength_cons, byteLength_cons, ih, Nat.add_assoc]

/-- A text that is not empty has a size. -/
theorem byteLength_pos {cs : List Char} (h : cs ≠ []) : 0 < byteLength cs := by
  rcases List.exists_cons_of_ne_nil h with ⟨c, ds, rfl⟩
  have := c.utf8Size_pos
  rw [byteLength_cons]
  omega

/-- The size of a text is the one that the library computes of its characters. -/
theorem byteLength_eq_utf8Len (cs : List Char) : byteLength cs = String.utf8Len cs := by
  induction cs with
  | nil => rfl
  | cons c cs ih => rw [byteLength_cons, String.utf8Len_cons, ih, Nat.add_comm]

/-- The size of a text is the one that the library computes of its bytes. -/
theorem byteLength_toList (text : String) : byteLength text.toList = text.utf8ByteSize := by
  rw [byteLength_eq_utf8Len, ← String.utf8ByteSize_ofList, String.ofList_toList]

/-! ## Slices -/

/-- The bytes of the text `cs` from `start` up to `stop` are the characters `piece`. -/
def SliceAt (cs : List Char) (start stop : Nat) (piece : List Char) : Prop :=
  ∃ before after, cs = before ++ (piece ++ after) ∧ byteLength before = start ∧
    start + byteLength piece = stop

namespace SliceAt

variable {text : String} {start stop : Nat} {piece : List Char}

/-- The ends of a slice are boundaries of characters. -/
theorem isValid (h : SliceAt text.toList start stop piece) :
    String.Pos.Raw.IsValid text ⟨start⟩ ∧ String.Pos.Raw.IsValid text ⟨stop⟩ := by
  rcases h with ⟨before, after, htext, rfl, rfl⟩
  have hends : ∀ front back : List Char, text.toList = front ++ back →
      String.Pos.Raw.IsValid text ⟨byteLength front⟩ := by
    intro front back hfront
    rw [String.Pos.Raw.isValid_iff_exists_append]
    refine ⟨String.ofList front, String.ofList back, ?_, ?_⟩
    · rw [← String.ofList_append, ← hfront, String.ofList_toList]
    · rw [String.rawEndPos_ofList, byteLength_eq_utf8Len]
  constructor
  · exact hends before (piece ++ after) htext
  · rw [← byteLength_append]
    exact hends (before ++ piece) after (by rw [htext, List.append_assoc])

/-- A slice ends inside the text. -/
theorem stop_le (h : SliceAt text.toList start stop piece) : stop ≤ text.utf8ByteSize := by
  rcases h with ⟨before, after, htext, rfl, rfl⟩
  rw [← byteLength_toList, htext]
  simp only [byteLength_append]
  omega

/-- A slice is what the text holds between the two offsets. -/
theorem extract_eq (h : SliceAt text.toList start stop piece) :
    String.Pos.Raw.extract text ⟨start⟩ ⟨stop⟩ = String.ofList piece := by
  rcases h with ⟨before, after, htext, rfl, rfl⟩
  have hofList : text = String.ofList (before ++ piece ++ after) := by
    rw [List.append_assoc, ← htext, String.ofList_toList]
  rw [hofList, byteLength_eq_utf8Len, byteLength_eq_utf8Len]
  exact String.extract_of_valid before piece after

end SliceAt

/-! ## Located tokens -/

namespace LocatedToken

/-- The tokens of a text, each with the bytes at which it stands. -/
def ofText (cs : List Char) : List LocatedToken :=
  Lexeme.locateAll 0 (Lexeme.ofText cs)

/-- The first token of a text, found without reading any other. -/
def first? (cs : List Char) : Option LocatedToken :=
  (Lexeme.next? cs).map fun r => r.1.locate 0

end LocatedToken

namespace Lexeme

variable {ls : List Lexeme} {n : Nat}

@[simp]
theorem locateAll_nil (n : Nat) : locateAll n [] = [] :=
  rfl

theorem locateAll_cons (n : Nat) (l : Lexeme) (ls : List Lexeme) :
    locateAll n (l :: ls) = l.locate n :: locateAll (n + byteLength l.source) ls := by
  rw [locateAll, locate, source, byteLength_append, Nat.add_assoc]

/-- Lexemes behind others start where these end. -/
theorem locateAll_append (n : Nat) (ls ms : List Lexeme) :
    locateAll n (ls ++ ms) = locateAll n ls ++ locateAll (n + byteLength (sourceAll ls)) ms := by
  induction ls generalizing n with
  | nil => simp
  | cons l ls ih =>
    rw [List.cons_append, locateAll_cons, locateAll_cons, ih, List.cons_append, sourceAll_cons,
      byteLength_append, Nat.add_assoc]

/-- Locating lexemes keeps their tokens. -/
theorem map_token_locateAll (n : Nat) (ls : List Lexeme) :
    (locateAll n ls).map LocatedToken.token = ls.map token := by
  induction ls generalizing n with
  | nil => rfl
  | cons l ls ih =>
    rw [locateAll_cons, List.map_cons, List.map_cons, ih]
    rfl

@[simp]
theorem token_locate (n : Nat) (l : Lexeme) : (l.locate n).token = l.token :=
  rfl

@[simp]
theorem length_locateAll (n : Nat) (ls : List Lexeme) : (locateAll n ls).length = ls.length := by
  have := congrArg List.length (map_token_locateAll n ls)
  rwa [List.length_map, List.length_map] at this

/-- A located token stands behind all that the lexemes in front of it cover. -/
theorem exists_of_mem_locateAll {t : LocatedToken} (h : t ∈ locateAll n ls) :
    ∃ front l back, ls = front ++ l :: back ∧ t = l.locate (n + byteLength (sourceAll front)) := by
  induction ls generalizing n with
  | nil => cases h
  | cons l ls ih =>
    rw [locateAll_cons] at h
    rcases List.mem_cons.1 h with rfl | h
    · exact ⟨[], l, ls, rfl, by simp⟩
    · rcases ih h with ⟨front, m, back, rfl, rfl⟩
      refine ⟨l :: front, m, back, rfl, ?_⟩
      rw [sourceAll_cons, byteLength_append, Nat.add_assoc]

/-- A lexeme starts where those in front of it end. -/
theorem mem_locateAll (n : Nat) (front back : List Lexeme) (l : Lexeme) :
    l.locate (n + byteLength (sourceAll front)) ∈ locateAll n (front ++ l :: back) := by
  rw [locateAll_append, locateAll_cons]
  exact List.mem_append_right _ List.mem_cons_self

/-- Located tokens start behind the offset from which they are located. -/
theorem le_start_of_mem_locateAll {t : LocatedToken} (h : t ∈ locateAll n ls) : n ≤ t.start := by
  rcases exists_of_mem_locateAll h with ⟨front, l, back, -, rfl⟩
  simp only [locate]
  omega

/-- Located tokens follow each other. -/
theorem pairwise_locateAll (n : Nat) (ls : List Lexeme) :
    (locateAll n ls).Pairwise fun t u => t.stop ≤ u.start := by
  induction ls generalizing n with
  | nil => exact List.Pairwise.nil
  | cons l ls ih =>
    rw [locateAll_cons]
    refine List.Pairwise.cons (fun u hu => ?_) (ih _)
    have hstart := le_start_of_mem_locateAll hu
    simp only [locate, source, byteLength_append] at hstart ⊢
    omega

end Lexeme

/-! ## The tokens of a text in their places -/

namespace Lexeme

/-- Only blanks stand in front of a token. -/
theorem isBlank_of_mem_gap {cs : List Char} :
    ∀ l ∈ ofText cs, ∀ c ∈ l.gap, Text.isBlank c = true := by
  apply Reads.forall_ofText
  intro cs l rest h
  rcases next?_eq_some h with ⟨c, tail, -, hgap, -, -⟩
  exact hgap

/-- No token is empty. -/
theorem text_ne_nil_of_mem_ofText {cs : List Char} : ∀ l ∈ ofText cs, l.token.text ≠ [] := by
  apply Reads.forall_ofText
  intro cs l rest h
  rcases text_of_next? h with ⟨c, tail, htext, -⟩
  rw [htext]
  exact List.cons_ne_nil c tail

/-- A text is made up of what its lexemes cover and a blank rest. -/
theorem exists_blank_rest (cs : List Char) :
    ∃ blank, (∀ c ∈ blank, Text.isBlank c = true) ∧ cs = sourceAll (ofText cs) ++ blank := by
  rcases Reads.of_ofText cs with ⟨blank, hblank, hreads⟩
  exact ⟨blank, hblank, hreads.source.symm⟩

/-- A character of a text that no located token covers is a blank. -/
theorem isBlank_of_outside {ls : List Lexeme} {blank before after : List Char} {c : Char} {n : Nat}
    (hgaps : ∀ l ∈ ls, ∀ c ∈ l.gap, Text.isBlank c = true)
    (hblank : ∀ c ∈ blank, Text.isBlank c = true)
    (hsplit : sourceAll ls ++ blank = before ++ c :: after)
    (houtside : ∀ t ∈ locateAll n ls,
      n + byteLength before < t.start ∨ t.stop ≤ n + byteLength before) :
    Text.isBlank c = true := by
  induction ls generalizing n before with
  | nil =>
    apply hblank
    rw [sourceAll_nil, List.nil_append] at hsplit
    simp [hsplit]
  | cons l ls ih =>
    have hsource : l.gap ++ (l.token.text ++ (sourceAll ls ++ blank)) = before ++ c :: after := by
      rw [← hsplit, sourceAll_cons, source]
      simp only [List.append_assoc]
    rw [locateAll_cons] at houtside
    rcases List.exists_of_append_eq hsource with ⟨d, hgap⟩ | ⟨d, rfl, hrest⟩
    · exact hgaps l (by simp) c (by simp [hgap])
    · rcases List.exists_of_append_eq hrest with ⟨e, htext⟩ | ⟨e, rfl, htail⟩
      · have hc := c.utf8Size_pos
        have hfirst := houtside (l.locate n) List.mem_cons_self
        simp only [locate, htext, byteLength_append, byteLength_cons] at hfirst
        omega
      · apply ih (fun m hm => hgaps m (by simp [hm])) htail (n := n + byteLength l.source)
        intro t ht
        have := houtside t (List.mem_cons_of_mem _ ht)
        simp only [source, byteLength_append] at this ⊢
        omega

end Lexeme

/-! ## Putting a text together again -/

/-- The text from byte `n` on, put together from the located tokens and what stands between
them. -/
def LocatedToken.weave (text : String) (n : Nat) : List LocatedToken → String
  | [] => String.Pos.Raw.extract text ⟨n⟩ ⟨text.utf8ByteSize⟩
  | t :: ts =>
    String.Pos.Raw.extract text ⟨n⟩ ⟨t.start⟩ ++ String.ofList t.token.text ++ weave text t.stop ts

namespace Lexeme

/-- Located tokens and what stands between them are what the lexemes cover. -/
theorem weave_locateAll {text : String} (before : List Char) {blank : List Char} {ls : List Lexeme}
    (h : text.toList = before ++ (sourceAll ls ++ blank)) :
    LocatedToken.weave text (byteLength before) (locateAll (byteLength before) ls) =
      String.ofList (sourceAll ls ++ blank) := by
  induction ls generalizing before with
  | nil =>
    apply SliceAt.extract_eq
    refine ⟨before, [], by rw [h, List.append_nil], rfl, ?_⟩
    rw [← byteLength_toList, h, byteLength_append before]
  | cons l ls ih =>
    have hgap : SliceAt text.toList (byteLength before) (byteLength before + byteLength l.gap)
        l.gap := by
      refine ⟨before, l.token.text ++ (sourceAll ls ++ blank), ?_, rfl, rfl⟩
      rw [h, sourceAll_cons, source]
      simp only [List.append_assoc]
    have hrest : text.toList = (before ++ l.source) ++ (sourceAll ls ++ blank) := by
      rw [h, sourceAll_cons]
      simp only [List.append_assoc]
    have htail := ih (before ++ l.source) hrest
    rw [byteLength_append] at htail
    rw [locateAll_cons, LocatedToken.weave]
    simp only [locate, hgap.extract_eq]
    rw [Nat.add_assoc, ← byteLength_append, ← source, htail, ← String.ofList_append,
      ← String.ofList_append, sourceAll_cons, source]
    simp only [List.append_assoc]

end Lexeme

/-! ## Blanks inside tokens -/

namespace Token

/-- No character of a token of several characters is a blank. -/
theorem isBlank_of_isJoined {c : Char} (h : isJoined c = true) : Text.isBlank c = false := by
  rw [isJoined, Bool.or_eq_true, List.contains_iff_mem] at h
  rcases h with hword | hmark
  · exact Lexeme.isBlank_of_isWordChar hword
  · have key : ∀ d ∈ ['.', '<', '>', '=', '!', '|', ':'], Text.isBlank d = false := by decide
    exact key c hmark

/-- A token that opens with no quote holds no blank. -/
theorem isBlank_of_read {c : Char} {cs rest : List Char} {t : Token} (hq : isQuote c = false)
    (hc : Text.isBlank c = false) (h : read c cs = (t, rest)) :
    ∀ d ∈ t.text, Text.isBlank d = false := by
  intro d hd
  rcases isJoined_of_read hq h with hone | hall
  · rw [hone, List.mem_singleton] at hd
    rw [hd]
    exact hc
  · exact isBlank_of_isJoined (hall d hd)

end Token

/-- Only a string or a quoted name holds a blank. -/
theorem Lexeme.kind_of_mem_ofText {cs : List Char} : ∀ l ∈ Lexeme.ofText cs,
    (∃ c ∈ l.token.text, Text.isBlank c = true) →
      l.token.kind = .string ∨ l.token.kind = .quotedName := by
  apply Lexeme.Reads.forall_ofText
  rintro cs l rest h ⟨d, hd, hblank⟩
  rcases Lexeme.next?_eq_some h with ⟨c, tail, -, -, hc, hread⟩
  rw [← Token.isQuoted_iff, Token.isQuoted_of_read hread]
  cases hq : isQuote c with
  | true => rfl
  | false =>
    have := Token.isBlank_of_read hq hc hread d hd
    rw [hblank] at this
    cases this

/-- A token that is closed does not stop with a blank. -/
theorem Lexeme.isBlank_of_getLast? {cs : List Char} : ∀ l ∈ ofText cs, l.token.Terminated →
    ∀ c ∈ l.token.text.getLast?, Text.isBlank c = false := by
  apply Reads.forall_ofText
  intro cs l rest h hterm d hd
  rcases next?_eq_some h with ⟨c, tail, -, -, hc, hread⟩
  cases hquote : isQuote c with
  | false => exact Token.isBlank_of_read hquote hc hread d (List.mem_of_getLast? hd)
  | true =>
    rcases Token.text_of_read hread with ⟨t, htext, -⟩
    rcases hterm c t htext hquote with ⟨inside, hinside⟩
    rw [htext, Token.inQuotes] at hinside
    rw [htext, (List.cons.inj hinside).2, ← List.cons_append, List.getLast?_concat] at hd
    obtain rfl := Option.some.inj hd
    exact hc

/-! ## Nothing is lost -/

namespace LocatedToken

/-- The tokens stand in the text one behind the other, each where the text holds its characters,
and nothing but blanks stands outside of them. -/
structure Cover (text : String) (ts : List LocatedToken) : Prop where
  nonempty : ∀ t ∈ ts, t.start < t.stop
  /-- A token starts and stops at boundaries of characters, inside the text. -/
  boundary : ∀ t ∈ ts, String.Pos.Raw.IsValid text ⟨t.start⟩ ∧
    String.Pos.Raw.IsValid text ⟨t.stop⟩ ∧ t.stop ≤ text.utf8ByteSize
  extract_eq : ∀ t ∈ ts,
    String.Pos.Raw.extract text ⟨t.start⟩ ⟨t.stop⟩ = String.ofList t.token.text
  ordered : ts.Pairwise fun t u => t.stop ≤ u.start
  outside : ∀ before c after, text.toList = before ++ c :: after →
    (∀ t ∈ ts, byteLength before < t.start ∨ t.stop ≤ byteLength before) →
      Text.isBlank c = true
  weave_eq : weave text 0 ts = text

/-- A located token of a text is a slice of it. -/
theorem sliceAt_of_mem_ofText {cs : List Char} {t : LocatedToken} (h : t ∈ ofText cs) :
    SliceAt cs t.start t.stop t.token.text ∧ t.token.text ≠ [] := by
  rcases Lexeme.exists_of_mem_locateAll h with ⟨front, l, back, hls, rfl⟩
  rcases Lexeme.exists_blank_rest cs with ⟨blank, -, hcs⟩
  constructor
  · refine ⟨Lexeme.sourceAll front ++ l.gap, Lexeme.sourceAll back ++ blank, ?_, ?_, rfl⟩
    · rw [hcs, hls, Lexeme.sourceAll_append, Lexeme.sourceAll_cons, Lexeme.source]
      simp only [List.append_assoc]
      rfl
    · simp only [Lexeme.locate, byteLength_append, Nat.zero_add]
  · exact Lexeme.text_ne_nil_of_mem_ofText l (by rw [hls]; simp)

/-- The tokens of a text cover it up to blanks. -/
theorem cover_ofText (text : String) : Cover text (ofText text.toList) := by
  rcases Lexeme.exists_blank_rest text.toList with ⟨blank, hblank, htext⟩
  have hslice : ∀ t ∈ ofText text.toList, SliceAt text.toList t.start t.stop t.token.text :=
    fun t ht => (sliceAt_of_mem_ofText ht).1
  exact {
    nonempty := by
      intro t ht
      rcases sliceAt_of_mem_ofText ht with ⟨⟨before, after, -, -, hstop⟩, hne⟩
      have := byteLength_pos hne
      omega
    boundary := by
      intro t ht
      rcases (hslice t ht).isValid with ⟨hstart, hstop⟩
      exact ⟨hstart, hstop, (hslice t ht).stop_le⟩
    extract_eq := fun t ht => (hslice t ht).extract_eq
    ordered := Lexeme.pairwise_locateAll 0 _
    outside := by
      intro before c after hsplit houtside
      apply Lexeme.isBlank_of_outside Lexeme.isBlank_of_mem_gap hblank (htext.symm.trans hsplit)
        (n := 0)
      intro t ht
      rw [Nat.zero_add]
      exact houtside t ht
    weave_eq := by
      have hweave := Lexeme.weave_locateAll [] htext
      rw [← htext, String.ofList_toList] at hweave
      exact hweave }

/-- The first token of a text is the first of its tokens. -/
theorem first?_eq_head? (cs : List Char) : first? cs = (ofText cs).head? := by
  rw [first?, ofText]
  cases h : Lexeme.next? cs with
  | none => rw [Lexeme.ofText_eq_nil h]; rfl
  | some r => rw [Lexeme.ofText_eq_cons h]; rfl

/-- The tokens of a text stand in it one behind the other, with nothing but blanks outside of
them, so that they and what stands between them make up the text.  Only a string or a quoted name
holds a blank.  Reading the first token alone gives the first of them, and there is none exactly
when all of the text is blank. -/
theorem ofText_lossless (text : String) :
    Cover text (ofText text.toList) ∧
      (∀ t ∈ ofText text.toList, (∃ c ∈ t.token.text, Text.isBlank c = true) →
        t.token.kind = .string ∨ t.token.kind = .quotedName) ∧
      first? text.toList = (ofText text.toList).head? ∧
      (first? text.toList = none ↔ ∀ c ∈ text.toList, Text.isBlank c = true) := by
  refine ⟨cover_ofText text, ?_, first?_eq_head? text.toList, ?_⟩
  · intro t ht
    rcases Lexeme.exists_of_mem_locateAll ht with ⟨front, l, back, hls, rfl⟩
    exact Lexeme.kind_of_mem_ofText l (by rw [hls]; simp)
  · rw [first?, Option.map_eq_none_iff]
    exact Lexeme.next?_eq_none_iff

end LocatedToken

end SelectAlgebra
