import SelectAlgebra.Command.Run
import SelectAlgebra.Proofs.Host.Environment
import SelectAlgebra.Proofs.Host.FileTree

/-!
# Answers without colour

A command line that fits and a configuration that loads lead to a task.  When nothing asks for
colour, what a query is answered with is its algebra or its document as it stands.

Main results:

- Theorem `runFrom_run`: a run does its task and reports what came of it.
- Theorem `answerText_text` and `answerText_json`: what is written under each format.
- Theorem `runFrom_answer_none`: a text that asks no query changes nothing.
- Theorem `runFrom_answer_some`: a query is answered on the output.
- Theorem `runFrom_answer_file`: a query is answered on the output and in a file.
-/

namespace SelectAlgebra.Command

open Environment

variable (lib : Libraries)

/-! ## From the command line to the task -/

/-- Nothing asks for colour: it is switched off, or the environment does not insist on it. -/
def IsColorless (e : Environment) (o : Options) (c : Config) : Prop :=
  o.noColor = true ∨ c.output.color = false ∨
    e.valueOf? "CLICOLOR_FORCE" = none ∨ e.valueOf? "CLICOLOR_FORCE" = some "0"

/-- A run does its task and reports what came of it. -/
theorem runFrom_run {lib : Libraries} {e e₁ : Environment} {args : List String} {o : Options} {task : Task}
    {c : Config} (hargs : lib.readArguments (e.valueOf? "SQLRA_CONFIG") args = .ok (o, task))
    (hload : runFrom e (Config.load o.config lib.parseToml?) = (.ok c, e₁))
    (hcolor : IsColorless e o c) :
    runFrom e (run args lib) =
      runFrom e₁ (perform lib ⟨false⟩ o c task >>= report ⟨false⟩) := by
  have hpalette : (if o.noColor || !c.output.color then (⟨false⟩ : Palette)
      else paletteOf (e.valueOf? "CLICOLOR_FORCE")) = ⟨false⟩ := by
    rcases hcolor with h | h | h | h <;> simp [h, paletteOf]
  rw [run, runFrom_bind, runFrom_lookupVariable]
  simp only [hargs, runFrom_bind, runFrom_lookupVariable, hload, hpalette]

/-! ## Queries -/

/-- In the format of text, the algebra is written as it stands. -/
theorem answerText_text {l : Layout} (h : l.format = .text) (text : String) (q : Query) :
    answerText lib ⟨false⟩ l text q = q.algebra l.pretty ++ "\n" := by
  simp [answerText, h]

/-- In the format of JSON, the document of the query is printed. -/
theorem answerText_json {l : Layout} (h : l.format = .json) (text : String) (q : Query) :
    answerText lib ⟨false⟩ l text q =
      lib.printJson (document text (q.algebra l.pretty) q) ++ "\n" := by
  simp [answerText, h]

/-- A text that asks no query changes nothing. -/
theorem runFrom_answer_none {text : String} (h : Query.ofText? text = none) (e : Environment)
    (p : Palette) (l : Layout) (path : Option String) :
    runFrom e (answer lib p l path text) = (.error .notSelect, e) := by
  rw [answer, h, runFrom_pure]

/-- A query is answered on the output. -/
theorem runFrom_answer_some {text : String} {q : Query} (h : Query.ofText? text = some q)
    (e : Environment) (p : Palette) (l : Layout) :
    runFrom e (answer lib p l none text) =
      (.ok (), { e with output := e.output ++ answerText lib p l text q }) := by
  rw [answer, h, runFrom_bind, runFrom_write]
  rfl

/-- A query is answered on the output and in a file. -/
theorem runFrom_answer_file {text path : String} {q : Query} (h : Query.ofText? text = some q)
    {e : Environment} {l : Location} (layout : Layout)
    (hdevice : Device.at? e.files path = none) (hmakes : e.files.MakesFile path l) :
    runFrom e (answer lib ⟨false⟩ layout (some path) text) =
      (.ok (), { e with
        files := e.files.withFile l (q.algebra layout.pretty ++ "\n").toUTF8,
        output := e.output ++ answerText lib ⟨false⟩ layout text q,
        errors := e.errors ++ ("✓ Wrote algebra to " ++ path ++ "\n") }) := by
  have hwrite : runFrom { e with output := e.output ++ answerText lib ⟨false⟩ layout text q }
      (Host.writeFile path (q.algebra layout.pretty ++ "\n")) = _ :=
    runFrom_writeFile hdevice (hmakes.write_eq _)
  rw [answer, h]
  simp only [runFrom_bind, runFrom_write, hwrite, runFrom_writeError, runFrom_pure,
    Palette.paint_disabled]
  rfl

/-- A failure is reported with the exit code 1. -/
theorem runFrom_report_error (e : Environment) (f : Failure) :
    runFrom e (report ⟨false⟩ (.error f)) =
      (1, { e with errors := e.errors ++ ("Error: " ++ f.message ++ "\n") }) := by
  rw [report, runFrom_bind, runFrom_writeError, runFrom_pure]
  simp [String.append_assoc]

end SelectAlgebra.Command
