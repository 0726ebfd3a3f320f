import SelectAlgebra.Text.Cluster

/-!
# Backspaces

A backspace in a typed line takes back the cluster that was typed before it.  The clusters are
those of the whole line, so a mark does not join what a backspace in front of it has laid bare.

Main results:

- Theorem `withoutBackspaces_of_not_mem`: a line without a backspace is left as it is.
-/

namespace SelectAlgebra.Text

/-- The character that takes back the cluster before it. -/
def backspace : Char :=
  '\x08'

/-- A line as far as it has been typed. -/
structure TypedLine where
  /-- The characters, from the last to the first. -/
  characters : List Char := []
  /-- The sizes of the clusters that can be taken back, from the last to the first.  Eight bits
  are kept of a size in bytes. -/
  sizes : List UInt8 := []

namespace TypedLine

/-- The characters without the first ones, of the given size in bytes. -/
def dropBytes (size : Nat) : List Char → List Char
  | [] => []
  | c :: cs => if size = 0 then c :: cs else dropBytes (size - c.utf8Size) cs

/-- The size of a text in bytes. -/
def byteSize (cs : List Char) : Nat :=
  (cs.map Char.utf8Size).foldr (· + ·) 0

/-- The line after one more cluster. -/
def type (t : TypedLine) (cluster : List Char) : TypedLine :=
  if cluster = [backspace] then
    match t.sizes with
    | [] => t
    | size :: sizes => ⟨dropBytes size.toNat t.characters, sizes⟩
  else ⟨cluster.reverse ++ t.characters, (byteSize cluster).toUInt8 :: t.sizes⟩

end TypedLine

/-- What is left of a typed line when every backspace has taken back a cluster. -/
def withoutBackspaces (cs : List Char) : List Char :=
  ((clusters cs).foldl TypedLine.type {}).characters.reverse

/-! ## Small facts -/

/-- Clusters that are no backspace are all kept. -/
theorem reverse_characters_foldl_type {gs : List (List Char)} (h : [backspace] ∉ gs)
    (t : TypedLine) :
    (gs.foldl TypedLine.type t).characters.reverse = t.characters.reverse ++ gs.flatten := by
  induction gs generalizing t with
  | nil => simp
  | cons g gs ih =>
    rw [List.mem_cons, not_or] at h
    rw [List.foldl_cons, ih h.2, TypedLine.type, if_neg (Ne.symm h.1)]
    simp

/-- A line without a backspace is left as it is. -/
theorem withoutBackspaces_of_not_mem {cs : List Char} (h : backspace ∉ cs) :
    withoutBackspaces cs = cs := by
  have hg : [backspace] ∉ clusters cs := by
    intro hg
    apply h
    rw [← flatten_clusters cs]
    exact List.mem_flatten.2 ⟨_, hg, List.mem_singleton.2 rfl⟩
  rw [withoutBackspaces, reverse_characters_foldl_type hg, flatten_clusters]
  rfl

end SelectAlgebra.Text
