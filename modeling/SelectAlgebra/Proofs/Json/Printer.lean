import Mathlib.Tactic.SplitIfs
import Mathlib.Data.List.Perm.Basic
import SelectAlgebra.Json

/-!
# The texts that write a value

The grammar of JSON says which texts write a value.  There is white space around each element, name
and colon, the characters of a string may be escaped, and the fields of an object come in any order.
What is printed is a text of the grammar.

Main results:

- Theorem `isStringText_quote`: a string in quotation marks is written with its escapes.
- Theorem `isText_render`: a value is written with its lines indented.
- Theorem `isText_pretty`: a printed value is a text that writes it.
-/

namespace SelectAlgebra.Json

/-! ## Strings -/

/-- The characters that have a short escape, by the letters of these escapes. -/
def shortEscapes : List (Char × Char) :=
  [('\x22', '\x22'), ('\\', '\\'), ('/', '/'), ('b', '\x08'), ('f', '\x0C'), ('n', '\n'),
    ('r', '\r'), ('t', '\t')]

/-- The value of a hexadecimal digit. -/
def hexValue? (c : Char) : Option Nat :=
  ("0123456789abcdef".toList.idxOf? c).or ("0123456789ABCDEF".toList.idxOf? c)

/-- The number that hexadecimal digits write. -/
def hexNumber? (digits : List Char) : Option Nat :=
  digits.foldlM (fun n c => (hexValue? c).map (16 * n + ·)) 0

/-- A text that stands for a character in a string. -/
inductive IsCharText : Char → List Char → Prop
  /-- Any character but the quotation mark, the backslash and the controls stands for itself. -/
  | plain {c : Char} (hquote : c ≠ '\x22') (hbackslash : c ≠ '\\') (hcontrol : 0x20 ≤ c.toNat) :
    IsCharText c [c]
  | short {letter c : Char} (h : (letter, c) ∈ shortEscapes) : IsCharText c ['\\', letter]
  /-- A character is given by its code point in four digits. -/
  | code {c : Char} {digits : List Char} (hlength : digits.length = 4)
    (hnumber : hexNumber? digits = some c.toNat) : IsCharText c ('\\' :: 'u' :: digits)

/-- A text that stands for characters, one after the other. -/
inductive AreCharsText : List Char → List Char → Prop
  | nil : AreCharsText [] []
  | cons {c : Char} {cs first rest : List Char} (hfirst : IsCharText c first)
    (hrest : AreCharsText cs rest) : AreCharsText (c :: cs) (first ++ rest)

/-- A text that writes a string: its characters between quotation marks. -/
def IsStringText (s : String) (text : List Char) : Prop :=
  ∃ body, AreCharsText s.toList body ∧ text = '\x22' :: (body ++ ['\x22'])

/-- A control character is given by its code point. -/
theorem hexNumber?_control {n : Nat} (h : n < 0x20) : hexNumber? ('0' :: '0' :: hexPair n) = some n := by
  have hall : ∀ k < 0x20, hexNumber? ('0' :: '0' :: hexPair k) = some k := by decide
  exact hall n h

/-- A character is written plainly or by one of its escapes. -/
theorem isCharText_escapeChar (c : Char) : IsCharText c (escapeChar c) := by
  unfold escapeChar
  split_ifs with hquote hbackslash hplain hb hf hn hr ht
  · exact .short (by simp [hquote, shortEscapes])
  · exact .short (by simp [hbackslash, shortEscapes])
  · exact .plain hquote hbackslash hplain
  · exact .short (by simp [hb, shortEscapes])
  · exact .short (by simp [hf, shortEscapes])
  · exact .short (by simp [hn, shortEscapes])
  · exact .short (by simp [hr, shortEscapes])
  · exact .short (by simp [ht, shortEscapes])
  · exact .code rfl (hexNumber?_control (by omega))

/-- Characters are written one after the other. -/
theorem areCharsText_flatMap (cs : List Char) : AreCharsText cs (cs.flatMap escapeChar) := by
  induction cs with
  | nil => exact .nil
  | cons c cs ih => exact .cons (isCharText_escapeChar c) ih

/-- A string in quotation marks is written with its escapes. -/
theorem isStringText_quote (s : String) : IsStringText s (quote s).toList := by
  refine ⟨_, areCharsText_flatMap s.toList, ?_⟩
  simp [quote]

/-! ## Values -/

/-- White space of JSON. -/
def IsSpace (cs : List Char) : Prop :=
  ∀ c ∈ cs, c ∈ [' ', '\n', '\r', '\t']

/-- A text that writes one item or more, with commas between them. -/
inductive AreItems {α : Type} (Item : α → List Char → Prop) : List α → List Char → Prop
  | one {a : α} {text : List Char} (h : Item a text) : AreItems Item [a] text
  | more {a : α} {as : List α} {text rest : List Char} (h : Item a text)
    (hrest : AreItems Item as rest) : AreItems Item (a :: as) (text ++ ',' :: rest)

mutual

/-- A text that writes a value. -/
inductive IsText : Json → List Char → Prop
  | null : IsText .null "null".toList
  | true : IsText (.bool true) "true".toList
  | false : IsText (.bool false) "false".toList
  | number (literal : String) : IsText (.number literal) literal.toList
  | string {s : String} {text : List Char} (h : IsStringText s text) : IsText (.string s) text
  | emptyArray {space : List Char} (h : IsSpace space) :
    IsText (.array []) ('[' :: (space ++ [']']))
  | array {vs : List Json} {body : List Char} (h : AreItems IsElement vs body) :
    IsText (.array vs) ('[' :: (body ++ [']']))
  | emptyObject {space : List Char} (h : IsSpace space) :
    IsText (.object []) ('\x7b' :: (space ++ ['\x7d']))
  /-- The fields of an object may be written in any order. -/
  | object {fields written : List (String × Json)} {body : List Char}
    (horder : written.Perm fields) (h : AreItems IsField written body) :
    IsText (.object fields) ('\x7b' :: (body ++ ['\x7d']))

/-- A text that writes a value between white space. -/
inductive IsElement : Json → List Char → Prop
  | mk {v : Json} {before text after : List Char} (hbefore : IsSpace before) (h : IsText v text)
    (hafter : IsSpace after) : IsElement v (before ++ text ++ after)

/-- A text that writes a field: its name between white space, a colon and its value. -/
inductive IsField : String × Json → List Char → Prop
  | mk {name : String} {v : Json} {before nameText after text : List Char}
    (hbefore : IsSpace before) (hname : IsStringText name nameText) (hafter : IsSpace after)
    (h : IsElement v text) : IsField (name, v) (before ++ nameText ++ after ++ ':' :: text)

end

/-! ## Printed values -/

/-- There may be no white space. -/
theorem isSpace_nil : IsSpace [] := by
  simp [IsSpace]

/-- A line end and the indentation behind it are white space. -/
theorem isSpace_newline (level : Nat) : IsSpace (newline level).toList := by
  intro c hc
  rw [newline, String.toList_ofList, List.mem_cons] at hc
  rcases hc with rfl | hc
  · decide
  · rw [List.eq_of_mem_replicate hc]
    decide

/-- Parts on lines of their own write items, if each part does with the white space that comes to
stand around it. -/
theorem areItems_lines {α : Type} {Item : α → List Char → Prop} {level : Nat} {as : List α}
    {parts : List String} (hne : as ≠ []) (h : List.Forall₂ (fun a (part : String) => ∀ after,
      IsSpace after → Item a ((newline (level + 1)).toList ++ part.toList ++ after)) as parts) :
    AreItems Item as ((newline (level + 1)).toList ++
      (("," ++ newline (level + 1)).intercalate parts).toList ++ (newline level).toList) := by
  rw [String.toList_intercalate]
  induction h with
  | nil => exact absurd rfl hne
  | @cons a part as parts hitem hitems ih =>
    cases hitems with
    | nil => simpa using AreItems.one (hitem _ (isSpace_newline level))
    | @cons b part' as parts hitem' hitems' =>
      have hfirst : Item a ((newline (level + 1)).toList ++ part.toList) := by
        simpa using hitem [] isSpace_nil
      simpa using AreItems.more hfirst (ih (by simp))

/-- Without parts there is nothing between the brackets. -/
theorem toList_block_nil (level : Nat) (opening closing : String) :
    (block level opening closing []).toList = opening.toList ++ closing.toList := by
  simp [block]

/-- Between the brackets the parts stand on lines of their own. -/
theorem toList_block {level : Nat} {opening closing : String} {parts : List String}
    (hne : parts ≠ []) : (block level opening closing parts).toList =
      opening.toList ++ ((newline (level + 1)).toList ++
        (("," ++ newline (level + 1)).intercalate parts).toList ++ (newline level).toList) ++
        closing.toList := by
  have hfilled : parts.isEmpty = false := by simpa using hne
  simp [block, hfilled]

/-- Texts of elements make an array. -/
theorem isText_array {level : Nat} {vs : List Json} {parts : List String}
    (h : List.Forall₂ (fun v (part : String) => IsText v part.toList) vs parts) :
    IsText (.array vs) (block level "[" "]" parts).toList := by
  rcases eq_or_ne parts [] with rfl | hne
  · cases h
    rw [toList_block_nil]
    exact .emptyArray isSpace_nil
  · have hvs : vs ≠ [] := by
      rintro rfl
      cases h
      exact hne rfl
    rw [toList_block hne]
    refine .array (areItems_lines hvs (h.imp fun v part hpart after hafter => ?_))
    exact .mk (isSpace_newline _) hpart hafter

/-- A name, a colon and the text of a value make a field. -/
theorem isField_render {level : Nat} {name : String} {v : Json} {part after : List Char}
    (h : IsText v part) (hafter : IsSpace after) :
    IsField (name, v)
      ((newline level).toList ++ ((quote name).toList ++ ':' :: ' ' :: part) ++ after) := by
  have hblank : IsSpace [' '] := by simp [IsSpace]
  have hvalue : IsElement v ([' '] ++ part ++ after) := .mk hblank h hafter
  have hfield := IsField.mk (isSpace_newline level) (isStringText_quote name) isSpace_nil hvalue
  simpa using hfield

/-- A part that is put among others is added to them. -/
theorem insertByName_perm (part : String × String) (parts : List (String × String)) :
    (insertByName part parts).Perm (part :: parts) := by
  induction parts with
  | nil => exact .refl _
  | cons other parts ih =>
    rw [insertByName]
    split
    · exact .refl _
    · exact (ih.cons other).trans (.swap part other parts)

/-- Sorting loses no part and adds none. -/
theorem sortByName_perm (parts : List (String × String)) : (sortByName parts).Perm parts := by
  induction parts with
  | nil => exact .refl _
  | cons part parts ih => exact (insertByName_perm part _).trans (ih.cons part)

/-- Names and texts of fields make an object, in whatever order they come. -/
theorem isText_object {level : Nat} {fs : List (String × Json)} {parts : List (String × String)}
    (h : List.Forall₂ (fun f (part : String × String) => part.1 = f.1 ∧ IsText f.2 part.2.toList)
      fs parts) :
    IsText (.object fs) (block level "\x7b" "\x7d"
      ((sortByName parts).map fun f => quote f.1 ++ ": " ++ f.2)).toList := by
  obtain ⟨written, hwritten, horder⟩ := List.perm_comp_forall₂ (sortByName_perm parts) h.flip
  generalize sortByName parts = sorted at hwritten
  rcases eq_or_ne sorted [] with rfl | hne
  · cases hwritten
    rw [List.map_nil, toList_block_nil, ← horder.nil_eq]
    exact .emptyObject isSpace_nil
  · have hfields : written ≠ [] := by
      rintro rfl
      cases hwritten
      exact hne rfl
    rw [toList_block (by simpa using hne)]
    refine .object horder (areItems_lines hfields ?_)
    rw [List.forall₂_map_right_iff]
    refine hwritten.flip.imp fun f part hpart after hafter => ?_
    obtain ⟨hname, htext⟩ := hpart
    simpa [hname] using isField_render htext hafter

mutual

/-- A value is written with its lines indented. -/
theorem isText_render (level : Nat) (v : Json) : IsText v (render level v).toList := by
  cases v with
  | null => exact .null
  | bool b =>
    cases b with
    | false => exact .false
    | true => exact .true
  | number literal => exact .number literal
  | string s => exact .string (isStringText_quote s)
  | array elements => exact isText_array (areTexts_renderAll (level + 1) elements)
  | object fields => exact isText_object (areTexts_renderFields (level + 1) fields)

/-- The elements of an array are written one by one. -/
theorem areTexts_renderAll (level : Nat) (vs : List Json) :
    List.Forall₂ (fun v (part : String) => IsText v part.toList) vs (renderAll level vs) := by
  cases vs with
  | nil => exact .nil
  | cons v vs => exact .cons (isText_render level v) (areTexts_renderAll level vs)

/-- The fields of an object are written one by one. -/
theorem areTexts_renderFields (level : Nat) (fs : List (String × Json)) :
    List.Forall₂ (fun f (part : String × String) => part.1 = f.1 ∧ IsText f.2 part.2.toList) fs
      (renderFields level fs) := by
  match fs with
  | [] => exact .nil
  | (name, v) :: fs => exact .cons ⟨rfl, isText_render level v⟩ (areTexts_renderFields level fs)

end

/-- A printed value is a text that writes it. -/
theorem isText_pretty (v : Json) : IsText v v.pretty.toList :=
  isText_render 0 v

end SelectAlgebra.Json
