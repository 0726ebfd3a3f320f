import SelectAlgebra.Host.Environment
import SelectAlgebra.Proofs.Host.Machine

/-!
# Runs in an environment

What the steps of a run do to an environment, said once for each question that a run can ask.

Main results:

- Theorem `runFrom_forLines`: without prompts the lines of the input are gone through one by one.
- Theorem `runFrom_writeFile`: writing to a file changes the files and nothing else.
- Theorem `OnlyReads.bind`: runs that only read can be put together.
- Theorem `onlyReads_readText`: reading a text changes nothing but the input.
-/

namespace SelectAlgebra.Environment

variable {α β : Type}

/-! ## Steps of a run -/

/-- Writing adds to the output. -/
@[simp]
theorem runFrom_write (e : Environment) (text : String) :
    runFrom e (Host.write text) = ((), { e with output := e.output ++ text }) :=
  rfl

/-- Reporting adds to the errors. -/
@[simp]
theorem runFrom_writeError (e : Environment) (text : String) :
    runFrom e (Host.writeError text) = ((), { e with errors := e.errors ++ text }) :=
  rfl

/-- A warning is added to the others. -/
@[simp]
theorem runFrom_warn (e : Environment) (text : String) :
    runFrom e (Host.warn text) = ((), { e with warnings := e.warnings ++ [text] }) :=
  rfl

/-- A variable is looked up among the bindings. -/
@[simp]
theorem runFrom_lookupVariable (e : Environment) (name : String) :
    runFrom e (Host.lookupVariable name) = (e.valueOf? name, e) :=
  rfl

/-- The home folder is found without a change. -/
@[simp]
theorem runFrom_homeFolder? (e : Environment) :
    runFrom e Host.homeFolder? = (e.homeFolder?, e) :=
  rfl

/-- The folder of the configuration files is found without a change. -/
@[simp]
theorem runFrom_configFolder? (e : Environment) :
    runFrom e Host.configFolder? = (e.configFolder?, e) :=
  rfl

/-- What there is at a path is found without a change. -/
@[simp]
theorem runFrom_pathExists (e : Environment) (path : String) :
    runFrom e (Host.pathExists path) = (e.files.pathExists path, e) :=
  rfl

/-- Nobody types the input of an environment. -/
@[simp]
theorem runFrom_inputIsTyped (e : Environment) : runFrom e Host.inputIsTyped = (false, e) :=
  rfl

/-- Nothing is left of the input when it has been read. -/
@[simp]
theorem runFrom_readInput (e : Environment) :
    runFrom e Host.readInput = (.ok e.input, { e with input := .empty }) :=
  rfl

/-- The line editor of an environment is ready at once. -/
@[simp]
theorem runFrom_startEditor (e : Environment) : runFrom e Host.startEditor = (.ok (), e) :=
  rfl

/-- A line that is offered comes behind the others. -/
@[simp]
theorem runFrom_offerLine (e : Environment) (line : String) :
    runFrom e (Host.offerLine line) = ((), { e with editor := e.editor.offer line }) :=
  rfl

/-! ## Lines -/

/-- What the line editor of an environment has to hand over. -/
def pending (e : Environment) : List (Except LineError String) :=
  (textLines e.input).map handedOver

/-- A prompt that writes nothing may be left out. -/
theorem forPrompted_empty {σ α : Type} (step : σ → α → EnvironmentM (Continue σ)) (state : σ)
    (lines : List α) : forPrompted (write "") step state lines = eachLine step state lines := by
  have hsilent : write "" = pure () := by
    funext e
    change (((), { e with output := e.output ++ "" }) : Unit × Environment) = ((), e)
    rw [String.append_empty]
  rw [hsilent]
  induction lines generalizing state with
  | nil => rw [forPrompted, pure_bind, eachLine]
  | cons line lines ih =>
    rw [forPrompted, pure_bind, eachLine]
    refine bind_congr fun next => ?_
    cases next with
    | next state' => exact ih state'
    | stop state' => rfl

/-- Without prompts the lines of the input are gone through one by one. -/
theorem runFrom_forLines {σ : Type} {e : Environment}
    (h : showsPrompt false (e.valueOf? "TERM") = false) (prompt : String) (state : σ)
    (step : σ → Except LineError String → EnvironmentM (Continue σ)) :
    runFrom e (Host.forLines prompt state step) =
      runFrom { e with input := .empty } (eachLine step state e.pending) := by
  change runFrom e (forLines prompt state step) = _
  rw [forLines, runFrom_bind, runFrom_get]
  simp only [h, Bool.false_eq_true, if_false]
  rw [runFrom_bind, forPrompted_empty]
  rfl

/-! ## Files -/

/-- A path leads to what is left of the input or to a file. -/
theorem runFrom_readFile_eq (e : Environment) (path : String) :
    runFrom e (Host.readFile path) =
      match Device.at? e.files path with
      | some .input => (.ok e.input, { e with input := .empty })
      | _ => (e.files.read path, e) := by
  change runFrom e (readFile path) = _
  rw [readFile, runFrom_bind, runFrom_get]
  rcases Device.at? e.files path with - | (- | - | - | - | -) <;> rfl

/-- A path that leads to no device leads to a file. -/
theorem runFrom_readFile {e : Environment} {path : String} (h : Device.at? e.files path = none) :
    runFrom e (Host.readFile path) = (e.files.read path, e) := by
  rw [runFrom_readFile_eq, h]

/-- Writing to a path that leads to no device changes the files and nothing else. -/
theorem runFrom_writeFile {e : Environment} {path text : String} {files : FileTree}
    (hdevice : Device.at? e.files path = none)
    (hwrite : e.files.write path text.toUTF8 = .ok files) :
    runFrom e (Host.writeFile path text) = (.ok (), { e with files }) := by
  change runFrom e (writeFile path text) = _
  rw [writeFile, runFrom_bind, runFrom_get]
  simp only [hdevice, hwrite]
  rfl

/-! ## Histories -/

/-- Taking a history from a path that leads to no device changes the line editor alone, and none of
the lines that it has been offered. -/
theorem runFrom_loadHistory_frame {e : Environment} {path : String}
    (hdevice : Device.at? e.files path = none) :
    ∃ loaded, (runFrom e (Host.loadHistory path)).2 =
      { e with editor := { e.editor with loaded } } := by
  change ∃ loaded, (runFrom e (loadHistory path)).2 = _
  have hread : runFrom e (readFile path) = (e.files.read path, e) := runFrom_readFile hdevice
  rw [loadHistory, runFrom_bind, hread]
  cases e.files.read path with
  | error cause => exact ⟨e.editor.loaded, rfl⟩
  | ok bytes => exact ⟨_, rfl⟩

/-- Putting the history into a path that leads to no device changes at most the files at it. -/
theorem runFrom_saveHistory_frame {e : Environment} {path : String}
    (hdevice : Device.at? e.files path = none) :
    ∃ files, (runFrom e (Host.saveHistory path)).2 = { e with files } ∧
      (files = e.files ∨ ∃ bytes, e.files.write path bytes = .ok files) := by
  change ∃ files, (runFrom e (saveHistory path)).2 = _ ∧ _
  rw [saveHistory, runFrom_bind, runFrom_get]
  dsimp only
  split
  · rw [writeFile, runFrom_bind, runFrom_get]
    cases hwrite : e.files.write path e.editor.history.toText.toUTF8 with
    | error cause => exact ⟨e.files, rfl, Or.inl rfl⟩
    | ok files => exact ⟨files, by rw [hdevice]; rfl, Or.inr ⟨_, hwrite⟩⟩
  · exact ⟨e.files, rfl, Or.inl rfl⟩

/-! ## Runs that only read -/

/-- A run that only reads: it changes nothing but what is left of the input. -/
def OnlyReads (x : EnvironmentM α) : Prop :=
  ∀ e : Environment, ∃ input, (runFrom e x).2 = { e with input }

/-- A value only reads. -/
theorem OnlyReads.pure (a : α) : OnlyReads (Pure.pure a) :=
  fun e => ⟨e.input, rfl⟩

/-- Runs that only read can be put together. -/
theorem OnlyReads.bind {x : EnvironmentM α} {f : α → EnvironmentM β} (hx : OnlyReads x)
    (hf : ∀ a, OnlyReads (f a)) : OnlyReads (x >>= f) := by
  intro e
  obtain ⟨input, h⟩ := hx e
  obtain ⟨input', h'⟩ := hf (runFrom e x).1 { e with input }
  exact ⟨input', by rw [runFrom_bind, h, h']⟩

/-- Looking for a path changes nothing. -/
theorem onlyReads_pathExists (path : String) : OnlyReads (Host.pathExists path) :=
  fun e => ⟨e.input, rfl⟩

/-- Asking for the folder of the configuration files changes nothing. -/
theorem onlyReads_configFolder? : OnlyReads Host.configFolder? :=
  fun e => ⟨e.input, rfl⟩

/-- Reading bytes changes nothing but the input. -/
theorem onlyReads_readFile (path : String) : OnlyReads (Host.readFile path) := by
  intro e
  rw [runFrom_readFile_eq]
  split
  · exact ⟨.empty, rfl⟩
  · exact ⟨e.input, rfl⟩

/-- Reading a text changes nothing but the input. -/
theorem onlyReads_readText (path : String) : OnlyReads (Host.readText path) :=
  (onlyReads_readFile path).bind fun _ => .pure _

end SelectAlgebra.Environment
