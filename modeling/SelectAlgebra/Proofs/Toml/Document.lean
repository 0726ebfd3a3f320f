import Mathlib.Data.List.Nodup
import Mathlib.Tactic.SplitIfs
import SelectAlgebra.Proofs.Toml.Lines

/-!
# Documents in sections

A document may have entries of its own and then tables, each behind a header with one key.  As long
as nothing is named twice it is read as the table of its entries and tables, and otherwise it is
refused.  Blank lines and comments have no say.

Main results:

- Theorem `table?_lines`: what comes of the lines of sections.
- Theorem `parse?_of_sections`: what comes of a text that writes sections.
- Theorem `exists_isDocumentText`: there is a text that writes them.
-/

namespace SelectAlgebra.Toml

/-! ## Sections -/

/-- A document that gives every key by itself: its own entries, and tables by their names. -/
structure Sections where
  entries : List (String × Value)
  tables : List (String × List (String × Value))

/-- The lines of entries. -/
def entryLines (entries : List (String × Value)) : List Line :=
  entries.map fun e => .entry [] e.1 e.2

/-- The lines of a table: its header and its entries. -/
def tableLines (t : String × List (String × Value)) : List Line :=
  .table [t.1] :: entryLines t.2

namespace Sections

/-- The lines of the sections. -/
def lines (d : Sections) : List Line :=
  entryLines d.entries ++ d.tables.flatMap tableLines

/-- A line is an entry of the document, or the header of a table or an entry of it. -/
theorem mem_lines {d : Sections} {l : Line} (h : l ∈ d.lines) :
    (∃ e ∈ d.entries, l = .entry [] e.1 e.2) ∨
      ∃ t ∈ d.tables, l = .table [t.1] ∨ ∃ e ∈ t.2, l = .entry [] e.1 e.2 := by
  rw [lines, List.mem_append, List.mem_flatMap] at h
  rcases h with h | ⟨t, ht, h⟩
  · obtain ⟨e, he, rfl⟩ := List.mem_map.1 h
    exact Or.inl ⟨e, he, rfl⟩
  · rcases List.mem_cons.1 h with rfl | h
    · exact Or.inr ⟨t, ht, Or.inl rfl⟩
    · obtain ⟨e, he, rfl⟩ := List.mem_map.1 h
      exact Or.inr ⟨t, ht, Or.inr ⟨e, he, rfl⟩⟩

/-- The table of all entries and tables. -/
def toValue (d : Sections) : Value :=
  .table (d.entries ++ d.tables.map fun t => (t.1, .table t.2))

/-- Nothing is named twice. -/
def IsDistinct (d : Sections) : Prop :=
  (d.entries.map Prod.fst ++ d.tables.map Prod.fst).Nodup ∧
    ∀ t ∈ d.tables, (t.2.map Prod.fst).Nodup

instance (d : Sections) : Decidable d.IsDistinct :=
  inferInstanceAs (Decidable (_ ∧ _))

end Sections

/-! ## Adding entries -/

section Entries

variable {key : String} {f : Option Node → Option Node} {es : Entries}

/-- A key that is not there is added behind the others. -/
theorem Entries.change_of_not_mem (h : key ∉ es.map Prod.fst) :
    es.change key f = (f none).map fun n => es ++ [(key, n)] := by
  induction es with
  | nil => cases hf : f none <;> simp [change, hf]
  | cons e es ih =>
    obtain ⟨k, n⟩ := e
    rw [List.map_cons, List.mem_cons, not_or] at h
    rw [change, if_neg (Ne.symm h.1), ih h.2]
    cases f none <;> rfl

/-- A key that is there is refused, if what it holds cannot be changed. -/
theorem Entries.change_of_mem (h : key ∈ es.map Prod.fst)
    (hf : ∀ n, (key, n) ∈ es → f (some n) = none) : es.change key f = none := by
  induction es with
  | nil => simp at h
  | cons e es ih =>
    obtain ⟨k, n⟩ := e
    by_cases hk : k = key
    · subst hk
      rw [change, if_pos rfl, hf n List.mem_cons_self]
      rfl
    · have hmem : key ∈ es.map Prod.fst := by
        rw [List.map_cons, List.mem_cons] at h
        exact h.resolve_left (Ne.symm hk)
      rw [change, if_neg hk, ih hmem fun n hn => hf n (List.mem_cons_of_mem _ hn)]
      rfl

/-- The last key is changed in its place. -/
theorem Entries.change_last {n : Node} (h : key ∉ es.map Prod.fst) :
    Entries.change key f (es ++ [(key, n)]) =
      (f (some n)).map fun n => es ++ [(key, n)] := by
  induction es with
  | nil =>
    rw [List.nil_append, change, if_pos rfl]
    cases f (some n) <;> rfl
  | cons e es ih =>
    obtain ⟨k, n'⟩ := e
    rw [List.map_cons, List.mem_cons, not_or] at h
    rw [List.cons_append, change, if_neg (Ne.symm h.1), ih h.2]
    cases f (some n) <;> rfl

/-- What entries leave behind in a table. -/
def valueNodes (entries : List (String × Value)) : Entries :=
  entries.map fun e => (e.1, .value e.2)

/-- The keys of entries are left behind in their order. -/
@[simp]
theorem keys_valueNodes (entries : List (String × Value)) :
    (valueNodes entries).map Prod.fst = entries.map Prod.fst := by
  simp [valueNodes]

/-- Adds entries to a table one after the other. -/
def addAll (entries : List (String × Value)) (es : Entries) : Option Entries :=
  entries.foldlM (fun es e => es.addDotted [] e.1 e.2) es

/-- A key is added unless it is there. -/
theorem Entries.addDotted_nil (es : Entries) (key : String) (v : Value) :
    es.addDotted [] key v =
      if key ∈ es.map Prod.fst then none else some (es ++ [(key, .value v)]) := by
  rw [addDotted]
  split_ifs with h
  · exact change_of_mem h fun n _ => rfl
  · rw [change_of_not_mem h]
    rfl

/-- Entries are added unless a key comes up twice. -/
theorem addAll_eq (entries : List (String × Value)) (hes : (es.map Prod.fst).Nodup) :
    addAll entries es = if (es.map Prod.fst ++ entries.map Prod.fst).Nodup then
      some (es ++ valueNodes entries) else none := by
  induction entries generalizing es with
  | nil => simp [addAll, valueNodes, hes]
  | cons e entries ih =>
    rw [addAll, List.foldlM_cons, Entries.addDotted_nil]
    by_cases hmem : e.1 ∈ es.map Prod.fst
    · have htwice : ¬ (es.map Prod.fst ++ (e :: entries).map Prod.fst).Nodup := by
        intro h
        exact List.disjoint_of_nodup_append h hmem (by simp)
      rw [if_pos hmem, if_neg htwice]
      rfl
    · have hes' : ((es ++ [(e.1, Node.value e.2)]).map Prod.fst).Nodup := by
        rw [List.map_append, List.map_singleton, ← List.concat_eq_append]
        exact hes.concat hmem
      rw [if_neg hmem]
      change addAll entries _ = _
      rw [ih hes']
      simp [valueNodes]

/-- An empty table takes entries unless a key comes up twice. -/
theorem addAll_nil (entries : List (String × Value)) :
    addAll entries [] =
      if (entries.map Prod.fst).Nodup then some (valueNodes entries) else none :=
  @addAll_eq [] entries List.nodup_nil

end Entries

/-! ## Adding lines -/

/-- The entries under a header are added to the table that the header leads to. -/
theorem foldlM_entryLines {header : List String} (place : Entries → Entries)
    (h : ∀ key v es, (place es).addUnder header [] key v = (es.addDotted [] key v).map place)
    (entries : List (String × Value)) (es : Entries) :
    (entryLines entries).foldlM Progress.add ⟨header, place es⟩ =
      (addAll entries es).map fun es => ⟨header, place es⟩ := by
  induction entries generalizing es with
  | nil => rfl
  | cons e entries ih =>
    rw [entryLines, List.map_cons, List.foldlM_cons, Progress.add, h, addAll, List.foldlM_cons]
    cases es.addDotted [] e.1 e.2 with
    | none => rfl
    | some es => exact ih es

/-- What a table leaves behind in the document. -/
def tableNode (t : String × List (String × Value)) : String × Node :=
  (t.1, .table .header (valueNodes t.2))

/-- Nothing that is there can be opened as a table. -/
def IsClosed (es : Entries) : Prop :=
  ∀ e ∈ es, (∃ v, e.2 = .value v) ∨ ∃ sub, e.2 = .table .header sub

/-- A table is opened unless its name is there. -/
theorem Entries.openTable_eq {es : Entries} (hclosed : IsClosed es) (name : String) :
    es.openTable [name] =
      if name ∈ es.map Prod.fst then none else some (es ++ [(name, .table .header [])]) := by
  rw [openTable, changeAt]
  split_ifs with h
  · refine change_of_mem h fun n hn => ?_
    rcases hclosed _ hn with ⟨v, hv⟩ | ⟨sub, hsub⟩
    · rw [show n = _ from hv]
    · rw [show n = _ from hsub]
  · rw [change_of_not_mem h]
    rfl

/-- A table is added unless its name is there or one of its keys comes up twice. -/
theorem foldlM_tableLines {es : Entries} (hclosed : IsClosed es) (header : List String)
    (t : String × List (String × Value)) :
    (tableLines t).foldlM Progress.add ⟨header, es⟩ =
      if t.1 ∉ es.map Prod.fst ∧ (t.2.map Prod.fst).Nodup then
        some ⟨[t.1], es ++ [tableNode t]⟩ else none := by
  rw [tableLines, List.foldlM_cons, Progress.add, Entries.openTable_eq hclosed]
  by_cases hmem : t.1 ∈ es.map Prod.fst
  · rw [if_pos hmem, if_neg fun h => h.1 hmem]
    rfl
  · have hunder : ∀ key v sub,
        Entries.addUnder [t.1] [] key v (es ++ [(t.1, Node.table .header sub)]) =
          (Entries.addDotted [] key v sub).map fun sub => es ++ [(t.1, .table .header sub)] := by
      intro key v sub
      rw [Entries.addUnder, Entries.changeAt, Entries.change_last hmem, Option.map_map]
      rfl
    rw [if_neg hmem]
    change (entryLines t.2).foldlM Progress.add ⟨[t.1], es ++ [(t.1, .table .header [])]⟩ = _
    rw [foldlM_entryLines (fun sub => es ++ [(t.1, Node.table .header sub)]) hunder, addAll_nil]
    by_cases hdistinct : (t.2.map Prod.fst).Nodup
    · rw [if_pos hdistinct, if_pos ⟨hmem, hdistinct⟩]
      rfl
    · rw [if_neg hdistinct, if_neg fun h => hdistinct h.2]
      rfl

/-- Tables are added unless a name comes up twice or a key of one of them does. -/
theorem foldlM_tables {es : Entries} (hclosed : IsClosed es) (hes : (es.map Prod.fst).Nodup)
    (header : List String) (tables : List (String × List (String × Value))) :
    ((tables.flatMap tableLines).foldlM Progress.add ⟨header, es⟩).map Progress.entries =
      if (es.map Prod.fst ++ tables.map Prod.fst).Nodup ∧
          ∀ t ∈ tables, (t.2.map Prod.fst).Nodup then
        some (es ++ tables.map tableNode) else none := by
  induction tables generalizing es header with
  | nil => simp [hes]
  | cons t tables ih =>
    rw [List.flatMap_cons, List.foldlM_append, foldlM_tableLines hclosed]
    by_cases h : t.1 ∉ es.map Prod.fst ∧ (t.2.map Prod.fst).Nodup
    · have hclosed' : IsClosed (es ++ [tableNode t]) := by
        intro e he
        rcases List.mem_append.1 he with he | he
        · exact hclosed e he
        · rw [List.mem_singleton.1 he]
          exact Or.inr ⟨_, rfl⟩
      have hes' : ((es ++ [tableNode t]).map Prod.fst).Nodup := by
        rw [List.map_append, List.map_singleton, ← List.concat_eq_append]
        exact hes.concat h.1
      rw [if_pos h]
      change (List.foldlM Progress.add ⟨[t.1], es ++ [tableNode t]⟩ _).map _ = _
      have hkeys : (es ++ [tableNode t]).map Prod.fst ++ tables.map Prod.fst =
          es.map Prod.fst ++ (t :: tables).map Prod.fst := by
        simp [tableNode]
      have hnodes : es ++ [tableNode t] ++ tables.map tableNode =
          es ++ (t :: tables).map tableNode := by
        simp
      rw [ih hclosed' hes', hkeys, hnodes]
      refine if_congr ?_ rfl rfl
      rw [List.forall_mem_cons, and_iff_right h.2]
    · rw [if_neg h, if_neg]
      · rfl
      · rintro ⟨hnames, htables⟩
        refine h ⟨fun hmem => ?_, htables t List.mem_cons_self⟩
        exact List.disjoint_of_nodup_append hnames hmem (by simp)

/-! ## Documents -/

/-- The finished values of the entries of a table, one by one. -/
theorem entryValues_eq_map (es : Entries) :
    entryValues es = es.map fun e => (e.1, e.2.toValue) := by
  induction es with
  | nil => rfl
  | cons e es ih => rw [List.map_cons, ← ih]; rfl

/-- Entries are finished as they were given. -/
theorem entryValues_valueNodes (entries : List (String × Value)) :
    entryValues (valueNodes entries) = entries := by
  rw [entryValues_eq_map, valueNodes, List.map_map]
  exact List.map_id _

/-- Tables are finished behind the entries as they were given. -/
theorem toValue_eq (d : Sections) :
    d.toValue = .table (entryValues (valueNodes d.entries ++ d.tables.map tableNode)) := by
  have htable (t : String × List (String × Value)) :
      ((tableNode t).1, (tableNode t).2.toValue) = (t.1, .table t.2) := by
    rw [tableNode, Node.toValue, entryValues_valueNodes]
  rw [entryValues_eq_map, List.map_append, ← entryValues_eq_map, entryValues_valueNodes,
    List.map_map, Sections.toValue]
  simp only [Function.comp_def, htable]

/-- What comes of the lines of sections. -/
theorem table?_lines (d : Sections) :
    table? d.lines = if d.IsDistinct then some d.toValue else none := by
  have htable (ls : List Line) : table? ls = ((ls.foldlM Progress.add ⟨[], []⟩).map
      Progress.entries).map fun es => .table (entryValues es) := by
    rw [table?]
    cases ls.foldlM Progress.add ⟨[], []⟩ <;> rfl
  have hentries : (entryLines d.entries).foldlM Progress.add ⟨[], []⟩ =
      (addAll d.entries []).map fun es => ⟨[], es⟩ :=
    foldlM_entryLines id (fun key v es => Option.map_id'.symm) d.entries []
  rw [htable, Sections.lines, List.foldlM_append, hentries, addAll_nil]
  by_cases hdistinct : (d.entries.map Prod.fst).Nodup
  · have hclosed : IsClosed (valueNodes d.entries) := by
      intro e he
      obtain ⟨e, -, rfl⟩ := List.mem_map.1 he
      exact Or.inl ⟨_, rfl⟩
    rw [if_pos hdistinct]
    change (((d.tables.flatMap tableLines).foldlM Progress.add ⟨[], valueNodes d.entries⟩).map
      Progress.entries).map _ = _
    rw [foldlM_tables hclosed (by rwa [keys_valueNodes]), keys_valueNodes]
    change (if d.IsDistinct then some (valueNodes d.entries ++ d.tables.map tableNode)
      else none).map _ = _
    rw [toValue_eq]
    split_ifs <;> rfl
  · have hnot : ¬ d.IsDistinct := fun h => hdistinct (List.Nodup.of_append_left h.1)
    rw [if_neg hdistinct, if_neg hnot]
    rfl

/-- Whether a line says something. -/
def Line.says : Line → Bool
  | .nothing => false
  | _ => true

/-- Every line of sections says something. -/
theorem Sections.filter_says_lines (d : Sections) : d.lines.filter Line.says = d.lines := by
  rw [List.filter_eq_self]
  intro l hl
  rcases mem_lines hl with ⟨e, -, rfl⟩ | ⟨t, -, rfl | ⟨e, -, rfl⟩⟩ <;> rfl

/-- Lines that say nothing change nothing. -/
theorem foldlM_filter_says (ls : List Line) (p : Progress) :
    (ls.filter Line.says).foldlM Progress.add p = ls.foldlM Progress.add p := by
  induction ls generalizing p with
  | nil => rfl
  | cons l ls ih =>
    cases l with
    | nothing => exact ih p
    | table | element | entry =>
      rw [List.filter_cons_of_pos rfl, List.foldlM_cons, List.foldlM_cons]
      exact congrArg _ (funext ih)

/-- A text that writes sections, with any blank lines and comments, is read as the table of all
their entries, unless something is named twice. -/
theorem parse?_of_sections {d : Sections} {ls : List Line} {text : String}
    (h : IsDocumentText ls text.toList) (hls : ls.filter Line.says = d.lines) :
    parse? text = if d.IsDistinct then some d.toValue else none := by
  rw [parse?_of_isDocumentText h, ← table?_lines, ← hls, table?, table?, foldlM_filter_says]

/-! ## Writing sections -/

/-- There is a text for every character. -/
theorem exists_isCharText (c : Char) : ∃ text, IsCharText c text := by
  by_cases hquote : c = '\x22'
  · have hescape : ('\x22', c) ∈ shortEscapes := by simp [hquote, shortEscapes]
    exact ⟨_, .short hescape⟩
  by_cases hbackslash : c = '\\'
  · have hescape : ('\\', c) ∈ shortEscapes := by simp [hbackslash, shortEscapes]
    exact ⟨_, .short hescape⟩
  by_cases hplain : IsPlainChar c
  · exact ⟨_, .plain hplain hquote hbackslash⟩
  · -- the control characters have small code points
    have hall : ∀ n < 0x80,
        (∀ d ∈ ['0', '0', Nat.digitChar (n / 16), Nat.digitChar (n % 16)], isHexDigit d = true) ∧
          numeral 16 ['0', '0', Nat.digitChar (n / 16), Nat.digitChar (n % 16)] = n := by
      decide
    have hsmall : c.toNat < 0x80 := by
      rw [IsPlainChar, not_or] at hplain
      omega
    obtain ⟨hdigits, hnumber⟩ := hall c.toNat hsmall
    exact ⟨_, .code rfl hdigits hnumber⟩

/-- There is a text for every string. -/
theorem exists_isStringText (s : String) : ∃ text, IsStringText s text := by
  choose text htext using exists_isCharText
  have hpieces : List.Forall₂ IsCharText s.toList (s.toList.map text) := by
    rw [List.forall₂_map_right_iff, List.forall₂_same]
    exact fun c _ => htext c
  exact ⟨_, .basic hpieces⟩

/-- There is a text for lines of which each has one. -/
theorem exists_areLinesText {ls : List Line} (h : ∀ l ∈ ls, ∃ text, IsLineText l text) :
    ∃ text, AreLinesText ls text := by
  induction ls with
  | nil => exact ⟨[], .last isBlankText_nil⟩
  | cons l ls ih =>
    rw [List.forall_mem_cons] at h
    obtain ⟨text, htext⟩ := h.1
    obtain ⟨rest, hrest⟩ := ih h.2
    exact ⟨_, .line isBlankText_nil htext .feed hrest⟩

/-- There is a text for an entry whose value has one. -/
theorem exists_isLineText_entry (key : String) {v : Value} (h : ∃ text, IsValueText v text) :
    ∃ text, IsLineText (.entry [] key v) text := by
  obtain ⟨keyText, hkey⟩ := exists_isStringText key
  obtain ⟨text, htext⟩ := h
  have hpath : IsPathText ([] ++ [key]) (keyText ++ []) := .one (.quoted hkey) isBlankText_nil
  exact ⟨_, .entry hpath (by decide) isBlankText_nil htext (.blank isBlankText_nil)⟩

/-- There is a text for the header of a table. -/
theorem exists_isLineText_table (name : String) : ∃ text, IsLineText (.table [name]) text := by
  obtain ⟨keyText, hkey⟩ := exists_isStringText name
  have hpath : IsPathText ([] ++ [name]) (keyText ++ []) := .one (.quoted hkey) isBlankText_nil
  exact ⟨_, .table isBlankText_nil hpath (by decide) (.blank isBlankText_nil)⟩

/-- There is a text for sections whose values all have one. -/
theorem exists_isDocumentText {d : Sections}
    (hentries : ∀ e ∈ d.entries, ∃ text, IsValueText e.2 text)
    (htables : ∀ t ∈ d.tables, ∀ e ∈ t.2, ∃ text, IsValueText e.2 text) :
    ∃ text : String, IsDocumentText d.lines text.toList := by
  have hlines : ∀ l ∈ d.lines, ∃ text, IsLineText l text := by
    intro l hl
    rcases Sections.mem_lines hl with ⟨e, he, rfl⟩ | ⟨t, ht, rfl | ⟨e, he, rfl⟩⟩
    · exact exists_isLineText_entry e.1 (hentries e he)
    · exact exists_isLineText_table t.1
    · exact exists_isLineText_entry e.1 (htables t ht e he)
  obtain ⟨text, htext⟩ := exists_areLinesText hlines
  refine ⟨String.ofList text, ?_⟩
  rw [String.toList_ofList]
  exact .plain htext

end SelectAlgebra.Toml
