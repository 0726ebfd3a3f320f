import Mathlib.Logic.Relation
import SelectAlgebra.Config
import SelectAlgebra.Proofs.Json.Forms

/-!
# Settings one by one

A configuration is six settings.  Each has a key in one of two tables of a document and is read from
what the key holds there, or keeps its built-in content where the key or its table is missing.  So a
document is a configuration when every setting that it has can be read, and a setting depends on
what its own key holds and on nothing else.

Main results:

- Theorem `Setting.readOr_eq_some_iff`: what is read for one setting.
- Theorem `Config.ofToml?_eq_some_iff`: a configuration is read setting by setting.
- Theorem `Config.ofToml?_settings`: which documents are configurations, what each setting is, and
  what has no say in it.
-/

namespace SelectAlgebra

open Toml (Value)

/-! ## Values -/

/-- Only a truth value is read as one. -/
theorem Toml.Value.asBool?_eq_some_iff {v : Value} {b : Bool} :
    v.asBool? = some b ↔ v = .boolean b := by
  cases v <;> simp [asBool?]

/-- Only a string is read as one. -/
theorem Toml.Value.asString?_eq_some_iff {v : Value} {t : String} :
    v.asString? = some t ↔ v = .string t := by
  cases v <;> simp [asString?]

/-- No two formats have one name. -/
theorem OutputFormat.name_injective : name.Injective := by
  intro f g h
  cases f <;> cases g <;> simp_all [name]

/-- The entries of a table.  No other value has any. -/
def Toml.Value.entries : Value → List (String × Value)
  | .table entries => entries
  | _ => []

/-! ## Settings -/

/-- What can be configured. -/
inductive Setting where
  | format | pretty | color
  | history | historyFile | prompt

namespace Setting

/-- What a setting can be set to. -/
def Content : Setting → Type
  | format => OutputFormat
  | pretty | color | history => Bool
  | historyFile => Option String
  | prompt => String

/-- The table of the document that has the setting. -/
def table : Setting → String
  | format | pretty | color => "output"
  | history | historyFile | prompt => "repl"

/-- The key of the setting in its table. -/
def key : Setting → String
  | format => "format"
  | pretty => "pretty"
  | color => "color"
  | history => "history"
  | historyFile => "history_file"
  | prompt => "prompt"

/-- The setting in a configuration. -/
def get (c : Config) : (s : Setting) → s.Content
  | format => c.output.format
  | pretty => c.output.pretty
  | color => c.output.color
  | history => c.session.history
  | historyFile => c.session.historyFile
  | prompt => c.session.prompt

/-- The built-in content of the setting. -/
def builtIn : (s : Setting) → s.Content
  | format => OutputFormat.text
  | pretty => false
  | color | history => true
  | historyFile => none
  | prompt => "sqlra> "

/-- The value is the content as it is written in a document. -/
def Means : (s : Setting) → Value → s.Content → Prop
  | format, v, f => (v = .string "text" ∧ f = .text) ∨ (v = .string "json" ∧ f = .json)
  | pretty, v, b | color, v, b | history, v, b => v = .boolean b
  | historyFile, v, path => ∃ file, v = .string file ∧ path = some file
  | prompt, v, p => v = .string p

/-- What a document holds under the key of the setting, if it has the table and the table has the
key. -/
def find? (s : Setting) (doc : Value) : Option Value :=
  (doc.entries.lookup s.table).bind fun v => v.entries.lookup s.key

/-- The content that a field of a document gives the setting: what its value means, or the built-in
content where it is not there. -/
def Holds (s : Setting) (field : Option Value) (a : s.Content) : Prop :=
  field.elim (a = s.builtIn) (s.Means · a)

/-- How a value is read for the setting. -/
def read? : (s : Setting) → Value → Option s.Content
  | format => Value.asNamed? OutputFormat.named
  | pretty | color | history => Value.asBool?
  | historyFile => fun v => v.asString?.map some
  | prompt => Value.asString?

/-! ## One setting -/

variable {s : Setting} {v : Value} {field : Option Value} {a b : s.Content}

/-- What a value means for a setting is read from it. -/
theorem read?_of_means (h : s.Means v a) : s.read? v = some a := by
  cases s with
  | format => rcases h with ⟨rfl, rfl⟩ | ⟨rfl, rfl⟩ <;> rfl
  | pretty | color | history =>
    rw [show v = .boolean a from h]
    rfl
  | historyFile =>
    obtain ⟨file, rfl, rfl⟩ := h
    rfl
  | prompt =>
    rw [show v = .string a from h]
    rfl

/-- What is read for a setting is what the value means.  A format could also be written as a table,
which leaves a string. -/
theorem means_of_read? (hformat : s = format → ∃ name, v = .string name)
    (h : s.read? v = some a) : s.Means v a := by
  cases s with
  | format =>
    obtain ⟨name, rfl⟩ := hformat rfl
    obtain ⟨-, rfl⟩ := (List.lookup_keyed_iff OutputFormat.name_injective).1 h
    cases a with
    | text => exact Or.inl ⟨rfl, rfl⟩
    | json => exact Or.inr ⟨rfl, rfl⟩
  | pretty | color | history => exact Value.asBool?_eq_some_iff.1 h
  | historyFile =>
    obtain ⟨file, hfile, hpath⟩ := Option.map_eq_some_iff.1 h
    exact ⟨file, Value.asString?_eq_some_iff.1 hfile, hpath.symm⟩
  | prompt => exact Value.asString?_eq_some_iff.1 h

/-- A value means one content at most. -/
theorem Means.eq (ha : s.Means v a) (hb : s.Means v b) : a = b :=
  Option.some.inj ((read?_of_means ha).symm.trans (read?_of_means hb))

/-- A field gives one content at most. -/
theorem Holds.eq (ha : s.Holds field a) (hb : s.Holds field b) : a = b := by
  cases field with
  | none => exact Eq.trans ha (Eq.symm hb)
  | some v => exact Means.eq ha hb

/-- What is read for one setting. -/
theorem readOr_eq_some_iff (hformat : s = format → ∀ v ∈ field, ∃ name, v = .string name) :
    readOr s.builtIn s.read? field = some a ↔ s.Holds field a := by
  cases field with
  | none => exact ⟨fun h => (Option.some.inj h).symm, fun h => congrArg some (Eq.symm h)⟩
  | some v => exact ⟨means_of_read? fun hs => hformat hs v rfl, read?_of_means⟩

/-- What is read for three settings in turn. -/
theorem readOr_bind_iff {s t u : Setting} {f g h : Option Value} {α : Type}
    {k : s.Content → t.Content → u.Content → α} {c : α}
    (hs : s = format → ∀ v ∈ f, ∃ name, v = .string name) (ht : t ≠ format) (hu : u ≠ format) :
    ((readOr s.builtIn s.read? f).bind fun a => (readOr t.builtIn t.read? g).bind fun b =>
      (readOr u.builtIn u.read? h).bind fun d => some (k a b d)) = some c ↔
      ∃ a b d, s.Holds f a ∧ t.Holds g b ∧ u.Holds h d ∧ k a b d = c := by
  simp only [Option.bind_eq_some_iff, readOr_eq_some_iff hs,
    readOr_eq_some_iff fun heq => absurd heq ht, readOr_eq_some_iff fun heq => absurd heq hu,
    Option.some.injEq]
  constructor
  · rintro ⟨a, ha, b, hb, d, hd, rfl⟩
    exact ⟨a, b, d, ha, hb, hd, rfl⟩
  · rintro ⟨a, b, d, ha, hb, hd, rfl⟩
    exact ⟨a, ha, b, hb, d, hd, rfl⟩

end Setting

/-! ## One table -/

open Setting (Holds)

/-- What is read from the table of an output. -/
theorem OutputConfig.ofToml?_eq_some_iff {entries : List (String × Value)} {c : OutputConfig}
    (hformat : ∀ v ∈ entries.lookup "format", ∃ name, v = .string name) :
    ofToml? (.table entries) = some c ↔
      Holds .format (entries.lookup "format") c.format ∧
        Holds .pretty (entries.lookup "pretty") c.pretty ∧
        Holds .color (entries.lookup "color") c.color := by
  have hread := Setting.readOr_bind_iff (s := .format) (t := .pretty) (u := .color)
    (k := OutputConfig.mk) (c := c) (f := entries.lookup "format")
    (g := entries.lookup "pretty") (h := entries.lookup "color") (fun _ => hformat) nofun nofun
  refine hread.trans ⟨?_, ?_⟩
  · rintro ⟨format, pretty, color, hf, hp, hc, rfl⟩
    exact ⟨hf, hp, hc⟩
  · rintro ⟨hf, hp, hc⟩
    exact ⟨_, _, _, hf, hp, hc, rfl⟩

/-- What is read from the table of a session. -/
theorem SessionConfig.ofToml?_eq_some_iff {entries : List (String × Value)} {c : SessionConfig} :
    ofToml? (.table entries) = some c ↔
      Holds .history (entries.lookup "history") c.history ∧
        Holds .historyFile (entries.lookup "history_file") c.historyFile ∧
        Holds .prompt (entries.lookup "prompt") c.prompt := by
  have hread := Setting.readOr_bind_iff (s := .history) (t := .historyFile) (u := .prompt)
    (k := SessionConfig.mk) (c := c) (f := entries.lookup "history")
    (g := entries.lookup "history_file") (h := entries.lookup "prompt") nofun nofun nofun
  refine hread.trans ⟨?_, ?_⟩
  · rintro ⟨history, historyFile, prompt, hh, hf, hp, rfl⟩
    exact ⟨hh, hf, hp⟩
  · rintro ⟨hh, hf, hp⟩
    exact ⟨_, _, _, hh, hf, hp, rfl⟩

/-! ## The whole document -/

/-- The document is a table, the tables of the settings are tables where they are there, and the
format is a string where it is there. -/
structure HasTables (doc : Value) : Prop where
  isTable : ∃ entries, doc = .table entries
  tables : ∀ s : Setting, ∀ v ∈ doc.entries.lookup s.table, ∃ entries, v = .table entries
  format : ∀ v ∈ Setting.format.find? doc, ∃ name, v = .string name

/-- The entries of the table of a setting.  A table that is missing has none. -/
def Setting.tableEntries (s : Setting) (doc : Value) : List (String × Value) :=
  (doc.entries.lookup s.table).elim [] Value.entries

/-- A setting is found under its key among the entries of its section. -/
theorem Setting.find?_eq_lookup (s : Setting) (doc : Value) :
    s.find? doc = (s.tableEntries doc).lookup s.key := by
  rw [find?, tableEntries]
  cases doc.entries.lookup s.table <;> rfl

/-- A table that is missing is read as an empty one. -/
theorem readOr_table {α : Type} {builtIn : α} {read : Value → Option α} {field : Option Value}
    (hempty : read (.table []) = some builtIn)
    (hfield : ∀ v ∈ field, ∃ entries, v = .table entries) :
    readOr builtIn read field = read (.table (field.elim [] Value.entries)) := by
  cases field with
  | none => exact hempty.symm
  | some v =>
    obtain ⟨entries, rfl⟩ := hfield v rfl
    rfl

/-! ## Entries that no setting is read from -/

/-- The second document is the first with one more entry that is no setting: an entry of the
document itself, or of the table of settings. -/
inductive AddsUnknown : Value → Value → Prop
  | top {front back : List (String × Value)} {k : String} {v : Value} :
      (∀ s : Setting, s.table ≠ k) →
        AddsUnknown (.table (front ++ back)) (.table (front ++ (k, v) :: back))
  | inside {front back before after : List (String × Value)} {name k : String} {v : Value} :
      (∀ s : Setting, s.table = name → s.key ≠ k) →
        AddsUnknown (.table (front ++ (name, .table (before ++ after)) :: back))
          (.table (front ++ (name, .table (before ++ (k, v) :: after)) :: back))

namespace AddsUnknown

variable {doc doc' : Value}

/-- Unknown entries do not change what a setting holds. -/
theorem find?_eq (h : AddsUnknown doc doc') (s : Setting) : s.find? doc' = s.find? doc := by
  cases h with
  | top hk => simp only [Setting.find?, Value.entries, List.lookup_append_cons_of_ne (hk s)]
  | @inside front back before after name k v hk =>
    simp only [Setting.find?, Value.entries, List.lookup_append, List.lookup_cons]
    by_cases hname : s.table = name
    · have hkey : (before ++ (k, v) :: after).lookup s.key = (before ++ after).lookup s.key :=
        List.lookup_append_cons_of_ne (hk s hname)
      cases front.lookup s.table with
      | some w => rfl
      | none => simpa [hname] using hkey
    · simp [beq_false_of_ne hname]

/-- Unknown entries do not change whether the sections are tables. -/
theorem hasTables_iff (h : AddsUnknown doc doc') : HasTables doc ↔ HasTables doc' := by
  have htables : (∀ s : Setting, ∀ v ∈ doc.entries.lookup s.table, ∃ entries, v = .table entries) ↔
      ∀ s : Setting, ∀ v ∈ doc'.entries.lookup s.table, ∃ entries, v = .table entries := by
    refine forall_congr' fun s => ?_
    cases h with
    | top hk => simp only [Value.entries, List.lookup_append_cons_of_ne (hk s)]
    | @inside front back before after name k v hk =>
      simp only [Value.entries, List.lookup_append, List.lookup_cons]
      cases front.lookup s.table with
      | some w => rfl
      | none => cases s.table == name <;> simp
  have htop : (∃ entries, doc = .table entries) ∧ ∃ entries, doc' = .table entries := by
    cases h with
    | top => exact ⟨⟨_, rfl⟩, ⟨_, rfl⟩⟩
    | inside => exact ⟨⟨_, rfl⟩, ⟨_, rfl⟩⟩
  have hfind := h.find?_eq .format
  constructor
  · intro hdoc
    exact ⟨htop.2, htables.1 hdoc.tables, by rw [hfind]; exact hdoc.format⟩
  · intro hdoc
    exact ⟨htop.1, htables.2 hdoc.tables, by rw [← hfind]; exact hdoc.format⟩

/-- However entries that are no settings are added and taken away, the settings stay. -/
theorem eqvGen (h : Relation.EqvGen AddsUnknown doc doc') :
    (HasTables doc ↔ HasTables doc') ∧ ∀ s : Setting, s.find? doc' = s.find? doc := by
  induction h with
  | rel _ _ h => exact ⟨h.hasTables_iff, h.find?_eq⟩
  | refl => exact ⟨Iff.rfl, fun _ => rfl⟩
  | symm _ _ _ ih => exact ⟨ih.1.symm, fun s => (ih.2 s).symm⟩
  | trans _ _ _ _ _ ih ih' => exact ⟨ih.1.trans ih'.1, fun s => (ih'.2 s).trans (ih.2 s)⟩

end AddsUnknown

namespace Config

/-- A configuration is read setting by setting. -/
theorem ofToml?_eq_some_iff {doc : Value} {c : Config} (h : HasTables doc) :
    ofToml? doc = some c ↔ ∀ s : Setting, s.Holds (s.find? doc) (s.get c) := by
  obtain ⟨entries, rfl⟩ := h.isTable
  let doc := Value.table entries
  have hread : ofToml? doc = (readOr {} OutputConfig.ofToml? (entries.lookup "output")).bind
      fun output => (readOr {} SessionConfig.ofToml? (entries.lookup "repl")).bind
        fun session => some { output, session } := rfl
  have houtput : readOr {} OutputConfig.ofToml? (entries.lookup "output") =
      OutputConfig.ofToml? (.table (Setting.tableEntries .format doc)) :=
    readOr_table rfl (h.tables .format)
  have hsession : readOr {} SessionConfig.ofToml? (entries.lookup "repl") =
      SessionConfig.ofToml? (.table (Setting.tableEntries .prompt doc)) :=
    readOr_table rfl (h.tables .prompt)
  have hformat : ∀ v ∈ (Setting.tableEntries .format doc).lookup "format",
      ∃ name, v = .string name := by
    have hfind := Setting.find?_eq_lookup .format doc
    change _ = (Setting.tableEntries .format doc).lookup "format" at hfind
    rw [← hfind]
    exact h.format
  rw [hread, houtput, hsession]
  simp only [Option.bind_eq_some_iff, OutputConfig.ofToml?_eq_some_iff hformat,
    SessionConfig.ofToml?_eq_some_iff, Setting.find?_eq_lookup, Option.some.injEq]
  constructor
  · rintro ⟨output, ⟨hf, hp, hc⟩, session, ⟨hh, hl, hr⟩, rfl⟩ s
    cases s with
    | format => exact hf
    | pretty => exact hp
    | color => exact hc
    | history => exact hh
    | historyFile => exact hl
    | prompt => exact hr
  · intro hall
    exact ⟨c.output, ⟨hall .format, hall .pretty, hall .color⟩,
      c.session, ⟨hall .history, hall .historyFile, hall .prompt⟩, rfl⟩

/-- The configuration with the given settings. -/
def ofSettings (f : (s : Setting) → s.Content) : Config where
  output := { format := f .format, pretty := f .pretty, color := f .color }
  session := { history := f .history, historyFile := f .historyFile, prompt := f .prompt }

/-- A configuration that is put together of its settings has these settings. -/
theorem get_ofSettings (f : (s : Setting) → s.Content) (s : Setting) :
    s.get (ofSettings f) = f s := by
  cases s <;> rfl

/-- Every setting has a content for a field that is not there or can be read. -/
theorem exists_holds {s : Setting} {field : Option Value} (h : ∀ v ∈ field, ∃ a, s.Means v a) :
    ∃ a, s.Holds field a := by
  cases field with
  | none => exact ⟨s.builtIn, rfl⟩
  | some v => exact h v rfl

/-- Which documents are configurations. -/
theorem isSome_ofToml?_iff {doc : Value} (h : HasTables doc) :
    (ofToml? doc).isSome = true ↔ ∀ s : Setting, ∀ v ∈ s.find? doc, ∃ a, s.Means v a := by
  rw [Option.isSome_iff_exists]
  constructor
  · rintro ⟨c, hc⟩ s v hv
    have hholds : s.Holds (s.find? doc) (s.get c) := (ofToml?_eq_some_iff h).1 hc s
    rw [hv] at hholds
    exact ⟨s.get c, hholds⟩
  · intro hall
    choose f hf using fun s : Setting => exists_holds (hall s)
    refine ⟨ofSettings f, (ofToml?_eq_some_iff h).2 fun s => ?_⟩
    rw [get_ofSettings]
    exact hf s

/-- Documents that have the same settings, whatever else they hold, are the same configuration or
both none. -/
theorem ofToml?_congr {doc doc' : Value} (h : HasTables doc) (h' : HasTables doc')
    (hsame : ∀ s : Setting, s.find? doc' = s.find? doc) : ofToml? doc' = ofToml? doc := by
  apply Option.ext
  intro c
  simp only [ofToml?_eq_some_iff h, ofToml?_eq_some_iff h', hsame]

/-- Configurations and their settings.  A document is a configuration exactly when every setting
that it has holds a value of its type.  Each setting is then what its value means, or the built-in
content where the document does not have it.  Entries that are no settings can be added, exchanged
and taken away, and so can tables without settings.  And between two configurations a setting
differs only where the documents differ in it. -/
theorem ofToml?_settings {doc : Value} (h : HasTables doc) :
    ((ofToml? doc).isSome = true ↔ ∀ s : Setting, ∀ v ∈ s.find? doc, ∃ a, s.Means v a) ∧
      (∀ c, ofToml? doc = some c → ∀ s : Setting,
        (∀ v, s.find? doc = some v → s.Means v (s.get c)) ∧
          (s.find? doc = none → s.get c = s.builtIn)) ∧
      (∀ doc', Relation.EqvGen AddsUnknown doc doc' → ofToml? doc' = ofToml? doc) ∧
      ∀ doc', HasTables doc' →
        ((∀ s : Setting, s.find? doc' = s.find? doc) → ofToml? doc' = ofToml? doc) ∧
          ∀ c c', ofToml? doc = some c → ofToml? doc' = some c' →
            ∀ s : Setting, s.find? doc' = s.find? doc → s.get c' = s.get c := by
  refine ⟨isSome_ofToml?_iff h, ?_, ?_, fun doc' h' => ⟨ofToml?_congr h h', ?_⟩⟩
  · intro c hc s
    have hholds : s.Holds (s.find? doc) (s.get c) := (ofToml?_eq_some_iff h).1 hc s
    constructor
    · intro v hv
      rwa [hv] at hholds
    · intro hnone
      rwa [hnone] at hholds
  · intro doc' hunknown
    obtain ⟨htables, hfind⟩ := AddsUnknown.eqvGen hunknown
    exact ofToml?_congr h (htables.1 h) hfind
  · intro c c' hc hc' s hsame
    have hholds : s.Holds (s.find? doc) (s.get c) := (ofToml?_eq_some_iff h).1 hc s
    have hholds' : s.Holds (s.find? doc') (s.get c') := (ofToml?_eq_some_iff h').1 hc' s
    rw [hsame] at hholds'
    exact hholds'.eq hholds

/-- A document with some settings, and with a key and a table that are none. -/
def partialDocument : Value :=
  .table [("output", .table [("pretty", .boolean true), ("width", .integer 80)]),
    ("server", .table [("prompt", .string "$ ")]),
    ("repl", .table [("history_file", .string "/tmp/history")])]

/-- The sections of the partial document are tables. -/
theorem hasTables_partialDocument : HasTables partialDocument where
  isTable := ⟨_, rfl⟩
  tables := by
    intro s
    cases s <;> simp [partialDocument, Value.entries, Setting.table, List.lookup_cons]
  format := by
    simp [partialDocument, Setting.find?, Value.entries, Setting.table, Setting.key,
      List.lookup_cons]

/-- The settings that are missing are the built-in ones. -/
theorem ofToml?_settings_partial : HasTables partialDocument ∧
    ∃ c, ofToml? partialDocument = some c ∧ c.output.pretty = true ∧ c.output.color = true ∧
      c.session.prompt = "sqlra> " := by
  have hpretty : Setting.pretty.find? partialDocument = some (.boolean true) := rfl
  have hcolor : Setting.color.find? partialDocument = none := rfl
  have hprompt : Setting.prompt.find? partialDocument = none := rfl
  obtain ⟨hsome, hcontent, -⟩ := ofToml?_settings hasTables_partialDocument
  obtain ⟨c, hc⟩ : ∃ c, ofToml? partialDocument = some c := by
    apply Option.isSome_iff_exists.1 (hsome.2 fun s => ?_)
    cases s with
    | pretty => exact fun v hv => ⟨true, (Option.some.inj hv).symm⟩
    | historyFile => exact fun v hv => ⟨some "/tmp/history", _, (Option.some.inj hv).symm, rfl⟩
    | format | color | history | prompt => nofun
  have htrue := Value.boolean.inj ((hcontent c hc .pretty).1 _ hpretty)
  exact ⟨hasTables_partialDocument, c, hc, htrue.symm, (hcontent c hc .color).2 hcolor,
    (hcontent c hc .prompt).2 hprompt⟩

end Config

end SelectAlgebra
