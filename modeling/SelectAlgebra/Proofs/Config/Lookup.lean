import SelectAlgebra.Config
import SelectAlgebra.Proofs.Host.Environment
import SelectAlgebra.Proofs.Host.Lines
import SelectAlgebra.Proofs.Lists

/-!
# The file of the configuration

The configuration in force comes from one file alone.  What a machine has at its paths is given
here apart from any run, so that the path that decides can be named without following the run, and
two machines can be compared at the paths that are looked at.  Where the user's configuration files
are kept is for the machine to say, and which texts write a document is for the reader of TOML.

Main results:

- Theorem `Environment.answers`: an environment answers as its surroundings say.
- Theorem `load_ofConsulted`: loading gives the outcome of the path that decides, and what there is
  at the paths behind it has no say.
-/

namespace SelectAlgebra

/-! ## What there is at a path -/

/-- What a machine has at a path: nothing, something that cannot be read such as a folder or a file
of another user, or bytes. -/
abbrev Entry := Option (Except AccessError ByteArray)

/-- What comes of the document that a text writes, if it writes one. -/
def documentOutcome : Option Toml.Value → Except ConfigError Config
  | none => .error .malformed
  | some document =>
    match Config.ofToml? document with
    | none => .error .malformed
    | some config => .ok config

/-- What comes of a path alone.  The bytes of a file have to encode a text, the text has to write a
document, and the document has to hold a configuration. -/
def Entry.outcome (parse? : String → Option Toml.Value) (path : String) :
    Entry → Except ConfigError Config
  | none => .error (.unusable ("config file not found: " ++ path))
  | some (.error cause) => .error (.unreadable cause)
  | some (.ok bytes) =>
    match String.fromUTF8? bytes with
    | none => .error (.unreadable .notText)
    | some text => documentOutcome (parse? text)

/-- A text is malformed unless it writes a document that holds a configuration. -/
theorem documentOutcome_parse (parse? : String → Option Toml.Value) (text : String) :
    documentOutcome (parse? text) =
      (Config.ofText? text parse?).elim (.error .malformed) .ok := by
  cases hparse : parse? text with
  | none => rw [Config.ofText?_of_refused hparse, documentOutcome, Option.elim]
  | some document =>
    rw [Config.ofText?_of_parsed hparse, documentOutcome]
    cases Config.ofToml? document <;> rfl

/-- What a run finds out about its machine: the folder of the user's configuration files, if there
is one, and what there is at each path. -/
structure Surroundings where
  configFolder : Option String
  entry : String → Entry

namespace Surroundings

/-- The usual places of a configuration: the one in the current folder and the user's own. -/
def places (s : Surroundings) : List String :=
  "sqlra.toml" ::
    (s.configFolder.map fun folder => joinPath (joinPath folder "sqlra") "config.toml").toList

/-- The path that decides: the one that is asked for, or else the first place that is not empty. -/
def consulted (s : Surroundings) (asked : Option String) : Option String :=
  asked.or (s.places.find? fun path => (s.entry path).isSome)

/-- The paths that are looked at: the one that decides and the places in front of it. -/
def lookedAt (s : Surroundings) (asked : Option String) : List String :=
  match asked with
  | some path => [path]
  | none =>
    s.places.takeWhile (fun path => !(s.entry path).isSome) ++ (s.consulted none).toList

/-- Two machines are the same at the paths that are looked at.  Where a path is asked for, the
places do not matter, and neither does the folder that one of them is in. -/
structure SameFor (asked : Option String) (s s' : Surroundings) : Prop where
  configFolder : asked = none → s'.configFolder = s.configFolder
  entry : ∀ path ∈ s.lookedAt asked, s'.entry path = s.entry path

/-- What comes of the path that decides, or the built-in configuration without one. -/
def outcome (parse? : String → Option Toml.Value) (s : Surroundings) (asked : Option String) :
    Except ConfigError Config :=
  match s.consulted asked with
  | none => .ok {}
  | some path => Entry.outcome parse? path (s.entry path)

/-! ## Two machines -/

variable {parse? : String → Option Toml.Value} {s s' : Surroundings} {asked : Option String}

/-- The path that decides is looked at. -/
theorem mem_lookedAt_of_consulted {path : String} (h : s.consulted asked = some path) :
    path ∈ s.lookedAt asked := by
  cases asked with
  | some p =>
    have hpath : p = path := Option.some.inj h
    exact List.mem_singleton.2 hpath.symm
  | none =>
    apply List.mem_append_right
    rw [h]
    exact List.mem_singleton_self path

/-- The same path decides on both machines. -/
theorem SameFor.consulted_eq (h : SameFor asked s s') : s'.consulted asked = s.consulted asked := by
  cases asked with
  | some path => rfl
  | none =>
    have hplaces : s'.places = s.places := by rw [places, places, h.configFolder rfl]
    rw [consulted, consulted, hplaces, Option.none_or, Option.none_or]
    apply List.find?_eq_of_agree
    intro path hpath
    rw [h.entry path hpath]

/-- The same comes of the path that decides. -/
theorem SameFor.outcome_eq (h : SameFor asked s s') :
    s'.outcome parse? asked = s.outcome parse? asked := by
  rw [outcome, outcome, h.consulted_eq]
  cases hconsulted : s.consulted asked with
  | none => rfl
  | some path =>
    have hmem : path ∈ s.lookedAt asked := mem_lookedAt_of_consulted hconsulted
    simp only [h.entry path hmem]

end Surroundings

/-! ## Loading on a machine -/

section Machine

variable {σ : Type} [Host (StateM σ)]

/-- In the given state a machine answers as its surroundings say.  Questions about the folder of
the user and about what exists change nothing, and what is there is read as it is. -/
structure Answers (st : σ) (s : Surroundings) : Prop where
  configFolder? : runFrom st Host.configFolder? = (s.configFolder, st)
  pathExists : ∀ path, runFrom st (Host.pathExists path) = ((s.entry path).isSome, st)
  readFile : ∀ path contents, s.entry path = some contents →
    (runFrom st (Host.readFile path)).1 = contents

namespace Answers

variable {st : σ} {s : Surroundings}

/-- A file that has to exist gives what comes of its path alone. -/
theorem ofFile (h : Answers st s) (parse? : String → Option Toml.Value) (path : String) :
    (runFrom st (Config.ofFile path parse?)).1 = Entry.outcome parse? path (s.entry path) := by
  rw [Config.ofFile, runFrom_bind, h.pathExists]
  cases hentry : s.entry path with
  | none => rfl
  | some contents =>
    have hread := h.readFile path contents hentry
    simp only [Option.isSome_some, if_true, runFrom_bind, runFrom_pure, Host.readText, hread]
    cases contents with
    | error cause => rfl
    | ok bytes =>
      simp only [Except.bind, decodeText, Entry.outcome]
      cases String.fromUTF8? bytes with
      | none => rfl
      | some text => exact (documentOutcome_parse parse? text).symm

/-- The usual places are found by the folder of the user alone. -/
theorem usualPaths (h : Answers st s) : runFrom st Config.usualPaths = (s.places, st) := by
  rw [Config.usualPaths, runFrom_bind, h.configFolder?, runFrom_pure, Surroundings.places]

/-- Of several paths the first that is not empty decides. -/
theorem ofFirst (h : Answers st s) (parse? : String → Option Toml.Value) (paths : List String) :
    (runFrom st (Config.ofFirst paths parse?)).1 =
      match paths.find? fun path => (s.entry path).isSome with
      | none => .ok {}
      | some path => Entry.outcome parse? path (s.entry path) := by
  induction paths with
  | nil => rfl
  | cons path paths ih =>
    rw [Config.ofFirst, runFrom_bind, h.pathExists, List.find?_cons]
    by_cases hpresent : (s.entry path).isSome = true
    · simp only [hpresent, if_true]
      exact h.ofFile parse? path
    · simp only [hpresent]
      exact ih

/-- Loading gives what comes of the path that decides. -/
theorem load (h : Answers st s) (parse? : String → Option Toml.Value) (asked : Option String) :
    (runFrom st (Config.load asked parse?)).1 = s.outcome parse? asked := by
  cases asked with
  | some path => exact h.ofFile parse? path
  | none =>
    rw [Config.load, runFrom_bind, h.usualPaths, h.ofFirst]
    rfl

end Answers

end Machine

/-! ## Environments -/

namespace Environment

/-- What is read at a path: what is left of the input, or what the files say. -/
def contents (e : Environment) (path : String) : Except AccessError ByteArray :=
  if Device.at? e.files path = some .input then .ok e.input else e.files.read path

/-- What an environment has at a path. -/
def entry (e : Environment) (path : String) : Entry :=
  if e.files.pathExists path then some (e.contents path) else none

/-- What a run finds out about an environment. -/
def surroundings (e : Environment) : Surroundings where
  configFolder := e.configFolder?
  entry := e.entry

/-- Reading a path of an environment gives what is at it. -/
theorem readFile_eq_contents (e : Environment) (path : String) :
    (runFrom e (Host.readFile path)).1 = e.contents path := by
  rw [runFrom_readFile_eq, contents]
  split
  · rename_i hdevice
    rw [if_pos hdevice]
  · rename_i hdevice
    rw [if_neg hdevice]

/-- An environment answers as its surroundings say. -/
theorem answers (e : Environment) : Answers e e.surroundings where
  configFolder? := rfl
  pathExists path := by
    change (e.files.pathExists path, e) = ((e.entry path).isSome, e)
    rw [entry]
    cases e.files.pathExists path <;> rfl
  readFile path contents h := by
    change (if e.files.pathExists path then some (e.contents path) else none) = some contents at h
    rw [readFile_eq_contents]
    split at h
    · exact Option.some.inj h
    · cases h

end Environment

/-! ## The law of the path that decides -/

/-- Loading gives what comes of the path that decides, and nothing behind that path has a say: a
machine that is the same at the paths that are looked at gives the same, whatever else it has. -/
theorem load_ofConsulted {σ : Type} [Host (StateM σ)] (parse? : String → Option Toml.Value) {st : σ}
    {s : Surroundings} (h : Answers st s) (asked : Option String) :
    (runFrom st (Config.load asked parse?)).1 = s.outcome parse? asked ∧
      ∀ {st' : σ} {s' : Surroundings}, Answers st' s' → s.SameFor asked s' →
        (runFrom st' (Config.load asked parse?)).1 =
          (runFrom st (Config.load asked parse?)).1 := by
  refine ⟨h.load parse? asked, ?_⟩
  intro st' s' h' hsame
  rw [h.load parse? asked, h'.load parse? asked, hsame.outcome_eq]

/-- A configuration of the user, and a file that is no document, in the current folder. -/
def configured : Environment :=
  { files := ⟨[["conf"], ["conf", "sqlra"]],
      [(["conf", "sqlra", "config.toml"], "[output]\npretty = true".toUTF8),
        (["broken.toml"], "[output".toUTF8)], []⟩,
    bindings := [("XDG_CONFIG_HOME", "/conf")], input := .empty }

/-- The same with a folder where the configuration of the current folder is looked for. -/
def inFront : Environment :=
  { configured with files := { configured.files with
      folders := ["sqlra.toml"] :: configured.files.folders } }

/-- The same without the configuration of the user. -/
def inFrontAlone : Environment :=
  { inFront with files := { inFront.files with files := [] } }

/-- The configuration of the user is read where nothing is in front of it.  A folder in front of it
is an error, whatever the user has, and so are a file that is asked for and writes no document, and
one that is not there. -/
theorem load_ofConsulted_inFront :
    (runFrom configured (Config.load none)).1 = .ok { output := { pretty := true } } ∧
      (runFrom inFront (Config.load none)).1 = .error (.unreadable .isFolder) ∧
      (runFrom inFrontAlone (Config.load none)).1 = .error (.unreadable .isFolder) ∧
      (runFrom configured (Config.load (some "broken.toml"))).1 = .error .malformed ∧
      (runFrom configured (Config.load (some "my.toml"))).1 =
        .error (.unusable "config file not found: my.toml") := by
  have huser : configured.surroundings.outcome Toml.parse? none =
      .ok { output := { pretty := true } } := by
    have hconsulted : configured.surroundings.consulted none = some "/conf/sqlra/config.toml" := by
      decide +kernel
    have hentry : configured.surroundings.entry "/conf/sqlra/config.toml" =
        some (.ok "[output]\npretty = true".toUTF8) := rfl
    have htext : Config.ofText? "[output]\npretty = true" =
        some { output := { pretty := true } } := by
      decide +kernel
    simp only [Surroundings.outcome, hconsulted, hentry, Entry.outcome, fromUTF8?_toUTF8,
      documentOutcome_parse, htext, Option.elim]
  have hbroken : configured.surroundings.outcome Toml.parse? (some "broken.toml") =
      .error .malformed := by
    have hentry : configured.surroundings.entry "broken.toml" =
        some (.ok "[output".toUTF8) := rfl
    have htext : Config.ofText? "[output" = none := by decide +kernel
    simp only [Surroundings.outcome, Surroundings.consulted, Option.some_or, hentry, Entry.outcome,
      fromUTF8?_toUTF8, documentOutcome_parse, htext, Option.elim]
  have hfolder : inFront.surroundings.outcome Toml.parse? none =
      .error (.unreadable .isFolder) := rfl
  have hlooked : inFront.surroundings.lookedAt none = ["sqlra.toml"] := by decide +kernel
  have hsame : inFront.surroundings.SameFor none inFrontAlone.surroundings := by
    refine ⟨fun _ => rfl, fun path hpath => ?_⟩
    rw [hlooked, List.mem_singleton] at hpath
    rw [hpath]
    rfl
  obtain ⟨hload, hother⟩ := load_ofConsulted Toml.parse? inFront.answers none
  rw [hfolder] at hload
  refine ⟨?_, hload, (hother inFrontAlone.answers hsame).trans hload, ?_, ?_⟩
  · exact (load_ofConsulted _ configured.answers none).1.trans huser
  · exact (load_ofConsulted _ configured.answers (some "broken.toml")).1.trans hbroken
  · exact (load_ofConsulted _ configured.answers (some "my.toml")).1

end SelectAlgebra
