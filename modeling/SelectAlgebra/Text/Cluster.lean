import SelectAlgebra.Text.ClusterBreak

/-!
# Clusters

A text falls apart into clusters, each of which a reader takes for one character.  Where one ends
is decided by how the characters on both sides of a place join their neighbours, and in a few
cases by what stands farther back: flags are pairs of halves, a pictograph is joined to another
one by a mark, and so are the consonants of an Indic conjunct.

Main results:

- Theorem `flatten_clusters`: the clusters of a text make up the text.
- Theorem `ne_nil_of_mem_clusters`: no cluster is empty.
-/

namespace SelectAlgebra.Text

namespace ClusterBreak

/-- The character stands in a cluster of its own. -/
def isAlone : ClusterBreak → Bool
  | carriageReturn | lineFeed | control => true
  | _ => false

/-- The character belongs to what stands in front of it. -/
def isMark : ClusterBreak → Bool
  | extending | linking | nonJoining | joining | spacing => true
  | _ => false

/-- The character extends a pictograph. -/
def extendsPictograph : ClusterBreak → Bool
  | extending | linking | nonJoining => true
  | _ => false

/-- The character can stand inside an Indic conjunct. -/
def extendsConjunct : ClusterBreak → Bool
  | extending | linking | joining => true
  | _ => false

/-- Two parts of one Hangul syllable. -/
def sameSyllable : ClusterBreak → ClusterBreak → Bool
  | leading, leading | leading, vowel | leading, openSyllable | leading, closedSyllable => true
  | openSyllable, vowel | openSyllable, trailing | vowel, vowel | vowel, trailing => true
  | closedSyllable, trailing | trailing, trailing => true
  | _, _ => false

/-! ## The rules

What stands in front of a place is given from the last character to the first. -/

/-- The second half of a flag follows. -/
def endsInHalfFlag (before : List ClusterBreak) : Bool :=
  (before.takeWhile (· == regional)).length % 2 == 1

/-- A pictograph that is to be joined with another one is what a text ends in. -/
def endsInJoinedPictograph : List ClusterBreak → Bool
  | joining :: before => (before.dropWhile extendsPictograph).head? == some pictograph
  | _ => false

/-- A consonant that is linked to another one is what a text ends in. -/
def endsInLinkedConsonant (before : List ClusterBreak) : Bool :=
  (before.takeWhile extendsConjunct).contains linking &&
    (before.dropWhile extendsConjunct).head? == some consonant

/-- A character belongs to the cluster of the one in front of it. -/
def continues : List ClusterBreak → ClusterBreak → Bool
  | [], _ => false
  | last :: before, next =>
    if last.isAlone || next.isAlone then last == carriageReturn && next == lineFeed
    else if next.isMark || last == prepended || sameSyllable last next then true
    else
      match next with
      | consonant => endsInLinkedConsonant (last :: before)
      | pictograph => endsInJoinedPictograph (last :: before)
      | regional => endsInHalfFlag (last :: before)
      | _ => false

end ClusterBreak

/-! ## The clusters of a text -/

/-- The rest of the cluster that is open at a place, and the clusters behind it. -/
def clustersAfter (before : List ClusterBreak) : List Char → List Char × List (List Char)
  | [] => ([], [])
  | c :: cs =>
    let next := ClusterBreak.ofChar c
    let rest := clustersAfter (next :: before) cs
    if ClusterBreak.continues before next then (c :: rest.1, rest.2)
    else ([], (c :: rest.1) :: rest.2)

/-- The clusters of a text, in order. -/
def clusters (cs : List Char) : List (List Char) :=
  (clustersAfter [] cs).2

/-! ## Small facts -/

/-- Every character is in the open cluster or in one behind it. -/
theorem append_flatten_clustersAfter (before : List ClusterBreak) (cs : List Char) :
    (clustersAfter before cs).1 ++ (clustersAfter before cs).2.flatten = cs := by
  induction cs generalizing before with
  | nil => rfl
  | cons c cs ih =>
    rw [clustersAfter]
    split <;> simp [ih]

/-- No cluster is open at the start of a text. -/
theorem clustersAfter_nil_fst (cs : List Char) : (clustersAfter [] cs).1 = [] := by
  cases cs with
  | nil => rfl
  | cons c cs => simp [clustersAfter, ClusterBreak.continues]

/-- The clusters of a text make up the text. -/
theorem flatten_clusters (cs : List Char) : (clusters cs).flatten = cs := by
  have h := append_flatten_clustersAfter [] cs
  rw [clustersAfter_nil_fst, List.nil_append] at h
  exact h

/-- No cluster behind a place is empty. -/
theorem ne_nil_of_mem_clustersAfter (before : List ClusterBreak) (cs : List Char) :
    ∀ g ∈ (clustersAfter before cs).2, g ≠ [] := by
  induction cs generalizing before with
  | nil => simp [clustersAfter]
  | cons c cs ih =>
    rw [clustersAfter]
    split
    · exact ih _
    · intro g hg
      rcases List.mem_cons.1 hg with rfl | hg
      · exact List.cons_ne_nil _ _
      · exact ih _ g hg

/-- No cluster is empty. -/
theorem ne_nil_of_mem_clusters {cs g : List Char} (h : g ∈ clusters cs) : g ≠ [] :=
  ne_nil_of_mem_clustersAfter [] cs g h

end SelectAlgebra.Text
