import SelectAlgebra.Proofs.Command.Answer
import SelectAlgebra.Proofs.Command.Arguments
import SelectAlgebra.Proofs.Host.Lines
import SelectAlgebra.Proofs.Json.Printer

/-!
# Runs that answer one query

A run reads its query as an argument, from a file or from the input, and answers it under its
settings.  Whether the text asks a query is settled before anything is written, so a run either
answers in full or leaves nothing behind but its report.  How a command line is read, which texts
are configurations and how JSON is laid out is for libraries to say.

Main results:

- Theorem `runFrom_source`: a run answers its query, wherever the query comes from.
- Theorem `runFrom_answer_report_some`: what an answered query leaves behind.
- Theorem `oneShot_allOrNothing`: a run answers in full or not at all, and its outputs agree.
-/

namespace SelectAlgebra.Command

open Environment Arguments

variable (lib : Libraries)

/-! ## Configurations -/

section Configurations

variable (parse? : String → Option Toml.Value)

/-- Reading a configuration from a file changes nothing but the input. -/
theorem onlyReads_ofFile (path : String) : OnlyReads (Config.ofFile path parse?) := by
  refine (onlyReads_pathExists path).bind fun found => ?_
  cases found with
  | false => exact .pure _
  | true =>
    refine (onlyReads_readText path).bind fun text => ?_
    cases text <;> exact .pure _

/-- Reading a configuration from the first of several files changes nothing but the input. -/
theorem onlyReads_ofFirst (paths : List String) : OnlyReads (Config.ofFirst paths parse?) := by
  induction paths with
  | nil => exact .pure _
  | cons path paths ih =>
    refine (onlyReads_pathExists path).bind fun found => ?_
    cases found with
    | false => exact ih
    | true => exact onlyReads_ofFile parse? path

/-- Loading the configuration changes nothing but the input. -/
theorem onlyReads_load (asked : Option String) : OnlyReads (Config.load asked parse?) := by
  cases asked with
  | none =>
    have hpaths : OnlyReads Config.usualPaths := onlyReads_configFolder?.bind fun _ => .pure _
    exact hpaths.bind (onlyReads_ofFirst parse?)
  | some path => exact onlyReads_ofFile parse? path

end Configurations

/-! ## The text of a query -/

/-- An environment offers a text by a source. -/
def Offers (e : Environment) (text : String) : Source → Prop
  | .argument query => query = text
  | .file path => Device.at? e.files path = none ∧ e.files.read path = .ok text.toUTF8
  | .input => e.input = text.toUTF8

/-- A text that is offered is read, and nothing but the input changes. -/
theorem runFrom_queryText? {e : Environment} {text : String} {s : Source} {o : Options}
    (hoffers : Offers e text s) (hquery : o.query = none) (hfile : o.file = none) :
    ∃ input, runFrom e (queryText? (s.into o)) = (.ok (some text), { e with input }) := by
  cases s with
  | argument query =>
    subst hoffers
    exact ⟨e.input, rfl⟩
  | file path =>
    obtain ⟨hdevice, hread⟩ := hoffers
    refine ⟨e.input, ?_⟩
    have hinto : (Source.file path).into o = { o with file := path } := rfl
    rw [hinto, queryText?]
    simp only [hquery, Host.readText, runFrom_bind, runFrom_readFile hdevice, hread, runFrom_pure,
      Except.bind, decodeText_toUTF8]
  | input =>
    refine ⟨.empty, ?_⟩
    have hinput : e.input = text.toUTF8 := hoffers
    have hinto : Source.input.into o = o := rfl
    rw [hinto, queryText?]
    simp only [hquery, hfile, runFrom_bind, runFrom_inputIsTyped, Bool.false_eq_true, if_false,
      runFrom_readInput, hinput, runFrom_pure, Except.bind, decodeText_toUTF8]

/-! ## Answers in full -/

/-- A file can be made at the path, and the path leads to no device. -/
def IsWritable (t : FileTree) (path : String) : Prop :=
  Device.at? t path = none ∧ ∃ l, t.MakesFile path l

/-- The files behind an answer that is written to a file too if there is a path. -/
def filesBehind (t : FileTree) (path : Option String) (algebra : String) : FileTree :=
  match path with
  | none => t
  | some path => (t.write path (algebra ++ "\n").toUTF8).toOption.getD t

/-- The files behind an answer are those before it with the file that is made. -/
theorem filesBehind_eq {t : FileTree} {path : String} {l : Location} (h : t.MakesFile path l)
    (algebra : String) :
    filesBehind t (some path) algebra = t.withFile l (algebra ++ "\n").toUTF8 := by
  change (t.write path _).toOption.getD _ = _
  rw [h.write_eq]
  rfl

/-- The file of an answer holds the algebra, and nothing else changes. -/
theorem filesBehind_some {t : FileTree} {path : String} (h : IsWritable t path)
    (algebra : String) :
    (filesBehind t (some path) algebra).read path = .ok (algebra ++ "\n").toUTF8 ∧
      (filesBehind t (some path) algebra).folders = t.folders ∧
      ∀ l, t.locate path ≠ .ok l → (filesBehind t (some path) algebra).file? l = t.file? l := by
  obtain ⟨-, k, hmakes⟩ := h
  rw [filesBehind_eq hmakes]
  refine ⟨hmakes.read_withFile _, rfl, fun l hl => FileTree.file?_withFile t _ fun hlk => hl ?_⟩
  rw [hlk, FileTree.locate_of_locateTarget hmakes.target]

/-- A text that asks no query leaves a report behind. -/
theorem runFrom_answer_report_none {text : String} (h : Query.ofText? text = none)
    (e : Environment) (l : Layout) (path : Option String) :
    runFrom e (answer lib ⟨false⟩ l path text >>= report ⟨false⟩) =
      (1, { e with errors := e.errors ++ ("Error: " ++ Failure.notSelect.message ++ "\n") }) := by
  rw [runFrom_bind, runFrom_answer_none lib h, runFrom_report_error]

/-- A query leaves its answer behind, whatever the input is. -/
theorem runFrom_answer_report_some {text : String} {q : Query} (h : Query.ofText? text = some q)
    {e : Environment} {path : Option String} (l : Layout)
    (hwritable : ∀ p ∈ path, IsWritable e.files p) :
    ∃ errors, ∀ input,
      runFrom { e with input } (answer lib ⟨false⟩ l path text >>= report ⟨false⟩) =
        (0, { e with
          files := filesBehind e.files path (q.algebra l.pretty),
          input,
          output := e.output ++ answerText lib ⟨false⟩ l text q,
          errors }) := by
  cases path with
  | none =>
    refine ⟨e.errors, fun input => ?_⟩
    rw [runFrom_bind, runFrom_answer_some lib h]
    rfl
  | some path =>
    obtain ⟨hdevice, k, hmakes⟩ := hwritable path rfl
    refine ⟨e.errors ++ ("✓ Wrote algebra to " ++ path ++ "\n"), fun input => ?_⟩
    rw [runFrom_bind, runFrom_answer_file lib h (e := { e with input }) l hdevice hmakes,
      ← filesBehind_eq hmakes]
    rfl

/-- A run answers its query, wherever the query comes from. -/
theorem runFrom_source {lib : Libraries} {e e₁ : Environment} {args : List String} {o : Options} {s : Source}
    {c : Config} {text : String} (hquery : o.query = none) (hfile : o.file = none)
    (hargs : lib.readArguments (e.valueOf? "SQLRA_CONFIG") args = .ok (s.into o, .answer))
    (hload : runFrom e (Config.load o.config lib.parseToml?) = (.ok c, e₁))
    (hcolor : IsColorless e o c) (hoffers : Offers e₁ text s) :
    ∃ input, runFrom e (run args lib) = runFrom { e with input }
      (answer lib ⟨false⟩ (layoutOf o c.output) o.output text >>= report ⟨false⟩) := by
  have hconfig : (s.into o).config = o.config := by cases s <;> rfl
  have houtput : (s.into o).output = o.output := by cases s <;> rfl
  have hlayout : layoutOf (s.into o) c.output = layoutOf o c.output := by cases s <;> rfl
  have hcolor' : IsColorless e (s.into o) c := by cases s <;> exact hcolor
  obtain ⟨input₁, he₁⟩ := onlyReads_load lib.parseToml? o.config e
  obtain ⟨input, hread⟩ := runFrom_queryText? hoffers hquery hfile
  rw [hload] at he₁
  change e₁ = _ at he₁
  subst he₁
  refine ⟨input, ?_⟩
  rw [runFrom_run hargs (hconfig ▸ hload) hcolor', perform, runFrom_bind, runFrom_bind, hread,
    houtput, hlayout, runFrom_bind]

/-- A run answers in full or not at all, and its outputs agree.  The format is the one of the
options, or else the configured one, and the tree is given when either asks for it.  A text that
asks no query leaves the output and the files as they were; a query is answered by its algebra on
the output, in the document that is printed as JSON and in the file alike.  Any other source of the
same text leads to the same code, the same output and the same files. -/
theorem oneShot_allOrNothing {lib : Libraries}
    (hprinter : ∀ v : Json, v.IsText (lib.printJson v).toList) {e e₁ : Environment}
    {args : List String} {o : Options} {s : Source} {c : Config} {text : String}
    (hquery : o.query = none) (hfile : o.file = none)
    (hargs : lib.readArguments (e.valueOf? "SQLRA_CONFIG") args = .ok (s.into o, .answer))
    (hload : runFrom e (Config.load o.config lib.parseToml?) = (.ok c, e₁))
    (hcolor : IsColorless e o c) (hoffers : Offers e₁ text s)
    (hwritable : ∀ path ∈ o.output, IsWritable e.files path) :
    let final := runFrom e (run args lib)
    let format := match o.format with
      | some format => format
      | none => c.output.format
    let pretty := o.pretty || c.output.pretty
    (match Query.ofText? text with
    | none => final.1 = 1 ∧ final.2.output = e.output ∧ final.2.files = e.files
    | some q =>
      let algebra := if pretty then trimmedEnd q.toExpr.tree else q.toExpr.oneLine
      let document := Json.object
        [("query", .string (trimmed text)), ("parsed", q.toJson), ("algebra", .string algebra)]
      final.1 = 0 ∧
      (format = .text → final.2.output = e.output ++ (algebra ++ "\n")) ∧
      (format = .json → final.2.output = e.output ++ (lib.printJson document ++ "\n") ∧
        document.IsText (lib.printJson document).toList) ∧
      (o.output = none → final.2.files = e.files) ∧
      ∀ path ∈ o.output, final.2.files.read path = .ok (algebra ++ "\n").toUTF8 ∧
        final.2.files.folders = e.files.folders ∧
        ∀ l, e.files.locate path ≠ .ok l → final.2.files.file? l = e.files.file? l) ∧
    ∀ (s' : Source) (args' : List String),
      lib.readArguments (e.valueOf? "SQLRA_CONFIG") args' = .ok (s'.into o, .answer) →
      Offers e₁ text s' →
      ∃ input, runFrom e (run args' lib) = (final.1, { final.2 with input }) := by
  intro final format pretty
  have hformat : (layoutOf o c.output).format = format := layoutOf_format o c.output
  have hpretty : (layoutOf o c.output).pretty = pretty := rfl
  have hrun {s' : Source} {args' : List String}
      (hargs' : lib.readArguments (e.valueOf? "SQLRA_CONFIG") args' = .ok (s'.into o, .answer))
      (hoffers' : Offers e₁ text s') : ∃ input, runFrom e (run args' lib) =
        runFrom { e with input }
          (answer lib ⟨false⟩ (layoutOf o c.output) o.output text >>= report ⟨false⟩) :=
    runFrom_source hquery hfile hargs' hload hcolor hoffers'
  obtain ⟨input, hfinal⟩ := hrun hargs hoffers
  change final = _ at hfinal
  cases hq : Query.ofText? text with
  | none =>
    rw [runFrom_answer_report_none lib hq] at hfinal
    rw [hfinal]
    refine ⟨⟨rfl, rfl, rfl⟩, fun s' args' hargs' hoffers' => ?_⟩
    obtain ⟨input', hrun'⟩ := hrun hargs' hoffers'
    exact ⟨input', by rw [hrun', runFrom_answer_report_none lib hq]⟩
  | some q =>
    obtain ⟨errors, hanswer⟩ := runFrom_answer_report_some lib hq (layoutOf o c.output)
      hwritable
    have halgebra : q.algebra pretty =
        if pretty then trimmedEnd q.toExpr.tree else q.toExpr.oneLine := rfl
    rw [hanswer] at hfinal
    rw [hfinal]
    dsimp only
    rw [← halgebra]
    refine ⟨⟨rfl, ?_, ?_, ?_, ?_⟩, fun s' args' hargs' hoffers' => ?_⟩
    · intro htext
      rw [answerText_text lib (hformat.trans htext), hpretty]
    · intro hjson
      rw [answerText_json lib (hformat.trans hjson), hpretty]
      exact ⟨rfl, hprinter _⟩
    · intro houtput
      rw [houtput]
      rfl
    · intro path hpath
      have hwrite := filesBehind_some (hwritable path hpath) (q.algebra pretty)
      rw [Option.mem_def] at hpath
      rw [hpath]
      exact hwrite
    · obtain ⟨input', hrun'⟩ := hrun hargs' hoffers'
      exact ⟨input', by rw [hrun', hanswer]⟩

/-- An environment that offers a query in a file and on the input. -/
def offering : Environment :=
  { files := ⟨[], [(["q.sql"], "SELECT a FROM t".toUTF8)], []⟩, bindings := [],
    input := "SELECT a FROM t".toUTF8 }

/-- The query that is offered, as a tree in a JSON document. -/
def offeredDocument : String :=
  "\x7b\n  \"algebra\": \"π[a]\\n  t\",\n  \"parsed\": \x7b\n    \"columns\": [\n      \"a\"\n    ],\n" ++
  "    \"conditions\": [],\n    \"groupBy\": [],\n    \"having\": [],\n    \"joins\": [],\n" ++
  "    \"operation\": \"SELECT\",\n    \"orderBy\": [],\n    \"tables\": [\n      \"t\"\n    ]\n" ++
  "  \x7d,\n  \"query\": \"SELECT a FROM t\"\n\x7d"

/-- A query is answered by a tree in a JSON document and in a file, wherever it comes from, and a
text that asks no query leaves nothing behind. -/
theorem oneShot_allOrNothing_offering :
    let settings := ["--format", "json", "--pretty", "-o", "out.txt"]
    let final := runFrom offering (run (settings ++ ["--file", "q.sql"]))
    let failed := runFrom offering (run (settings ++ ["DELETE FROM t"]))
    (final.1 = 0 ∧ final.2.output = offeredDocument ++ "\n" ∧
      final.2.files.read "out.txt" = .ok "π[a]\n  t\n".toUTF8 ∧
      (∃ input, runFrom offering (run (settings ++ ["SELECT a FROM t"])) =
        (final.1, { final.2 with input })) ∧
      ∃ input, runFrom offering (run settings) = (final.1, { final.2 with input })) ∧
      failed.1 = 1 ∧ failed.2.output = "" ∧ failed.2.files = offering.files := by
  intro settings final failed
  let o : Options := { format := some .json, pretty := true, output := some "out.txt" }
  have hsettings : settings.foldlM Reading.add {} = .ok { options := o } := rfl
  have hparse : parse none (settings ++ []) = .ok (o, .answer) := rfl
  have hread {s : Source} {args : List String} (h : s.IsGivenBy args) :
      parse none (settings ++ args) = .ok (s.into o, .answer) := by
    have hsource := parse_source hsettings h hparse rfl rfl
    rwa [List.append_nil] at hsource
  have hload : runFrom offering (Config.load none) = (.ok {}, offering) := rfl
  have hcolor : IsColorless offering o {} := Or.inr (Or.inr (Or.inl rfl))
  have hwritable : ∀ path ∈ o.output, IsWritable offering.files path := by
    rintro path ⟨⟩
    exact ⟨rfl, ["out.txt"], rfl, rfl⟩
  have hanswer := @oneShot_allOrNothing {} Json.isText_pretty offering offering _ o
    (.file "q.sql") {} "SELECT a FROM t" rfl rfl (hread (.file rfl rfl)) hload hcolor ⟨rfl, rfl⟩
    hwritable
  have hfailure := @oneShot_allOrNothing {} Json.isText_pretty offering offering _ o
    (.argument "DELETE FROM t") {} "DELETE FROM t" rfl rfl (hread (.argument rfl rfl)) hload hcolor
    rfl hwritable
  have hquery : Query.ofText? "SELECT a FROM t" =
      some ⟨false, ["t"], ["a"], [], [], [], [], []⟩ := by
    decide +kernel
  have hnone : Query.ofText? "DELETE FROM t" = none := by decide +kernel
  have htree : trimmedEnd (Query.mk false ["t"] ["a"] [] [] [] [] []).toExpr.tree =
      "π[a]\n  t" := by
    decide +kernel
  have hdocument : (Json.object [("query", .string (trimmed "SELECT a FROM t")),
      ("parsed", (Query.mk false ["t"] ["a"] [] [] [] [] []).toJson),
      ("algebra", .string "π[a]\n  t")]).pretty = offeredDocument := by
    decide +kernel
  simp only [hquery, o, Bool.true_or, if_true, htree] at hanswer
  simp only [hnone] at hfailure
  obtain ⟨⟨hcode, -, hjson, -, hfile⟩, hsource⟩ := hanswer
  obtain ⟨houtput, -⟩ := hjson trivial
  obtain ⟨hwritten, -⟩ := hfile "out.txt" rfl
  refine ⟨⟨hcode, ?_, hwritten, ?_, ?_⟩, hfailure.1⟩
  · exact houtput.trans (by rw [hdocument]; rfl)
  · exact hsource (.argument "SELECT a FROM t") _ (hread (.argument rfl rfl)) rfl
  · exact hsource .input _ hparse rfl

end SelectAlgebra.Command
