import SelectAlgebra.Json
import SelectAlgebra.Proofs.Lists

/-!
# The ways to write a value

What a typed reader makes of a JSON value, said by the ways in which a typed value can be written: a
list is an array of its entries, a named value is its name or a tagged null, and a record is an
object, in which further fields mean nothing, or the array of its fields in order.

Main results:

- Theorem `Json.asList?_eq_some_iff`: which values are read as a list.
- Theorem `Json.asNamed?_eq_some_iff`: which values are read as a named value.
- Theorem `Json.bind_required_iff`: what is read from a field that has to be there.
- Theorem `Json.asRecord?_iff_recordForm`: which values are read as a record.
-/

namespace SelectAlgebra.Json

/-! ## Strings and truth values -/

/-- Only a string is read as one. -/
@[simp]
theorem asString?_eq_some_iff {v : Json} {s : String} : v.asString? = some s ↔ v = .string s := by
  cases v <;> simp [asString?]

/-- Only a truth value is read as one. -/
@[simp]
theorem asBool?_eq_some_iff {v : Json} {b : Bool} : v.asBool? = some b ↔ v = .bool b := by
  cases v <;> simp [asBool?]

/-! ## Lists -/

/-- The value is an array of entries, each written in a way of its own. -/
def ArrayOf {α : Type} (Form : α → Json → Prop) (xs : List α) (v : Json) : Prop :=
  ∃ elements, v = .array elements ∧ List.Forall₂ Form xs elements

/-- A list is read from an array of what its entries are read from. -/
theorem asList?_eq_some_iff {α : Type} {read : Json → Option α} {Form : α → Json → Prop}
    (hread : ∀ x v, read v = some x ↔ Form x v) {v : Json} {xs : List α} :
    v.asList? read = some xs ↔ ArrayOf Form xs v := by
  have hforms : (fun x v => read v = some x) = Form := by
    funext x v
    exact propext (hread x v)
  cases v <;> simp [asList?, ArrayOf, List.mapM_eq_some_iff, hforms]

/-- Strings are written as the array of them. -/
theorem arrayOf_string_iff {xs : List String} {v : Json} :
    ArrayOf (fun s w => w = .string s) xs v ↔ v = .ofStrings xs := by
  have hall : ∀ elements, List.Forall₂ (fun s w => w = Json.string s) xs elements ↔
      elements = xs.map .string := by
    intro elements
    rw [← List.forall₂_eq_eq_eq, List.forall₂_map_right_iff]
    exact ⟨fun h => h.flip, fun h => h.flip⟩
  simp [ArrayOf, hall, ofStrings]

/-! ## Named values -/

/-- The value says a name: it is the name, or an object whose only field has the name and holds
null. -/
inductive Says (name : String) : Json → Prop
  | plain : Says name (.string name)
  | tagged : Says name (.object [(name, .null)])

/-- A named value is read from what says its name. -/
theorem asNamed?_eq_some_iff {α : Type} {values : List (String × α)} {v : Json} {a : α} :
    v.asNamed? values = some a ↔ ∃ name, Says name v ∧ values.lookup name = some a := by
  constructor
  · intro h
    unfold asNamed? at h
    split at h
    · exact ⟨_, .plain, h⟩
    · exact ⟨_, .tagged, h⟩
    · cases h
  · rintro ⟨name, hname, h⟩
    cases hname <;> exact h

/-! ## Records -/

/-- What a field of a record has to be, by its name: a test of the value that it holds, or of none
when it is not there. -/
abbrev Field := String × (Option Json → Prop)

/-- A field that has to be there. -/
def required (name : String) (Form : Json → Prop) : Field :=
  (name, fun v? => ∃ v, v? = some v ∧ Form v)

/-- A field that has to be there is read when what it holds is read. -/
theorem bind_required_iff {α β : Type} {read : Json → Option α} {Form : α → Json → Prop}
    (hread : ∀ x v, read v = some x ↔ Form x v) {name : String} {v? : Option Json}
    {next : α → Option β} {b : β} :
    (v? >>= fun v => read v >>= next) = some b ↔
      ∃ x, (required name (Form x)).2 v? ∧ next x = some b := by
  cases v? with
  | none => simp [required]
  | some v =>
    cases hv : read v with
    | none =>
      have hno (x : α) : ¬ Form x v := fun h => by simp [(hread x v).2 h] at hv
      simp [required, hv, hno]
    | some a =>
      have ha (x : α) : Form x v ↔ a = x := by rw [← hread, hv, Option.some.injEq]
      simp [required, hv, ha]

/-- The ways to write a record with the given fields: an object, whatever further fields it has, or
the array of what the fields hold, in order and with none left out. -/
inductive RecordForm (fields : List Field) : Json → Prop
  | object {entries : List (String × Json)} (h : ∀ f ∈ fields, f.2 (entries.lookup f.1)) :
      RecordForm fields (.object entries)
  | array {elements : List Json} (h : List.Forall₂ (fun f v => f.2 (some v)) fields elements) :
      RecordForm fields (.array elements)

/-- The fields of an array are found by their names. -/
theorem forall_lookup_zip_iff {fields : List Field} (hnodup : (fields.map Prod.fst).Nodup)
    {elements : List Json} (hlength : elements.length = fields.length) :
    (∀ f ∈ fields, f.2 (((fields.map Prod.fst).zip elements).lookup f.1)) ↔
      List.Forall₂ (fun f v => f.2 (some v)) fields elements := by
  induction fields generalizing elements with
  | nil => simp [List.length_eq_zero_iff.1 hlength]
  | cons f fields ih =>
    obtain ⟨v, elements, rfl⟩ := List.exists_cons_of_length_eq_add_one hlength
    rw [List.map_cons, List.nodup_cons] at hnodup
    have hother : ∀ g ∈ fields, (((f :: fields).map Prod.fst).zip (v :: elements)).lookup g.1 =
        ((fields.map Prod.fst).zip elements).lookup g.1 := by
      intro g hg
      have hne : g.1 ≠ f.1 := fun h => hnodup.1 (h ▸ List.mem_map_of_mem hg)
      simp [List.lookup_cons, beq_false_of_ne hne]
    rw [List.forall_mem_cons, List.forall₂_cons,
      ← ih hnodup.2 (by simpa using hlength)]
    refine and_congr (by simp) ?_
    exact forall₂_congr fun g hg => by rw [hother g hg]

/-- A record is read from a value when its fields are what they have to be. -/
theorem asRecord?_iff_recordForm (fields : List Field) (hnodup : (fields.map Prod.fst).Nodup)
    {v : Json} :
    (∃ field, v.asRecord? (fields.map Prod.fst) = some field ∧ ∀ f ∈ fields, f.2 (field f.1)) ↔
      RecordForm fields v := by
  constructor
  · rintro ⟨field, hfield, h⟩
    unfold asRecord? at hfield
    split at hfield
    · obtain rfl := Option.some.inj hfield
      exact .object h
    · split at hfield
      · rename_i elements hlength
        obtain rfl := Option.some.inj hfield
        exact .array ((forall_lookup_zip_iff hnodup (by simpa using hlength)).1 h)
      · cases hfield
    · cases hfield
  · intro h
    cases h with
    | object h => exact ⟨_, rfl, h⟩
    | @array elements h =>
      have hlength : elements.length = fields.length := h.length_eq.symm
      refine ⟨_, if_pos (by simpa using hlength), ?_⟩
      exact (forall_lookup_zip_iff hnodup hlength).2 h

/-- A field that has to be there, in one record or another of a type. -/
def IsRequired {α : Type} (fields : α → List Field) (name : String) : Prop :=
  ∀ x, ∃ f ∈ fields x, f.1 = name ∧ ¬ f.2 none

/-- Nothing is read from an object without a field that has to be there. -/
theorem eq_none_of_missing {α : Type} {read : Json → Option α} {fields : α → List Field}
    (hread : ∀ x v, read v = some x ↔ RecordForm (fields x) v) {name : String}
    (hname : IsRequired fields name) {entries : List (String × Json)}
    (hmissing : entries.lookup name = none) : read (.object entries) = none := by
  rw [Option.eq_none_iff_forall_ne_some]
  intro x hx
  obtain ⟨f, hf, rfl, hnone⟩ := hname x
  cases (hread x _).1 hx with
  | object h =>
    have hfield := h f hf
    rw [hmissing] at hfield
    exact hnone hfield

end SelectAlgebra.Json
