import SelectAlgebra.Proofs.Config.Settings
import SelectAlgebra.Proofs.Toml.Document

/-!
# Written configurations

A text in TOML that writes sections is the configuration of its settings, whatever blanks, comments
and escapes it has.  A text that names something twice is none.  Every configuration can be written.

Main results:

- Theorem `ofText?_eq_some_iff`: which configuration a text is.
- Theorem `exists_ofText?_eq_some`: every configuration can be written.
-/

namespace SelectAlgebra.Config

open Toml (Value Line Sections IsDocumentText)

/-! ## Reading -/

section Reading

variable {d : Sections} {ls : List Line} {text : String}

/-- What comes of a text that writes sections. -/
theorem ofText?_of_sections (h : IsDocumentText ls text.toList)
    (hls : ls.filter Line.says = d.lines) :
    ofText? text = if d.IsDistinct then ofToml? d.toValue else none := by
  have hparse := Toml.parse?_of_sections h hls
  split_ifs at hparse ⊢ with hdistinct
  · exact ofText?_of_parsed hparse
  · exact ofText?_of_refused hparse

/-- A text that writes sections is a configuration when nothing is named twice and each setting of
the configuration is what its own key holds, or the built-in content without one. -/
theorem ofText?_eq_some_iff (h : IsDocumentText ls text.toList)
    (hls : ls.filter Line.says = d.lines) (htables : HasTables d.toValue) {c : Config} :
    ofText? text = some c ↔
      d.IsDistinct ∧ ∀ s : Setting, s.Holds (s.find? d.toValue) (s.get c) := by
  rw [ofText?_of_sections h hls, ← ofToml?_eq_some_iff htables]
  split_ifs with hdistinct <;> simp [hdistinct]

end Reading

/-! ## Writing -/

/-- The sections that write a configuration with all its settings. -/
def sections (c : Config) : Sections where
  entries := []
  tables :=
    [("output",
      [("format", .string c.output.format.name), ("pretty", .boolean c.output.pretty),
        ("color", .boolean c.output.color)]),
    ("repl",
      ("history", .boolean c.session.history) :: ("prompt", .string c.session.prompt) ::
        c.session.historyFile.toList.map fun path => ("history_file", .string path))]

/-- The settings of a configuration have different names. -/
theorem isDistinct_sections (c : Config) : c.sections.IsDistinct := by
  obtain ⟨-, history, historyFile, prompt⟩ := c
  cases historyFile <;> simp [sections, Sections.IsDistinct]

/-- The sections of a configuration hold its settings. -/
theorem ofToml?_sections (c : Config) : ofToml? c.sections.toValue = some c := by
  obtain ⟨⟨format, pretty, color⟩, history, historyFile, prompt⟩ := c
  cases format <;> cases historyFile <;> rfl

/-- There is a text that writes the sections of a configuration. -/
theorem exists_isDocumentText_sections (c : Config) :
    ∃ text : String, IsDocumentText c.sections.lines text.toList := by
  have hboolean (b : Bool) : ∃ text, Toml.IsValueText (.boolean b) text := by
    cases b with
    | true => exact ⟨_, .ofTrue⟩
    | false => exact ⟨_, .ofFalse⟩
  have hstring (s : String) : ∃ text, Toml.IsValueText (.string s) text :=
    (Toml.exists_isStringText s).imp fun _ h => .string h
  refine Toml.exists_isDocumentText (by simp [sections]) ?_
  simp only [sections, List.forall_mem_cons, List.forall_mem_map, List.not_mem_nil, false_imp_iff,
    forall_const, hboolean, hstring, implies_true, and_self]

/-- Every configuration can be written. -/
theorem exists_ofText?_eq_some (c : Config) : ∃ text, ofText? text = some c := by
  obtain ⟨text, h⟩ := exists_isDocumentText_sections c
  refine ⟨text, ?_⟩
  rw [ofText?_of_sections h (Sections.filter_says_lines _), if_pos (isDistinct_sections c),
    ofToml?_sections]

end SelectAlgebra.Config
