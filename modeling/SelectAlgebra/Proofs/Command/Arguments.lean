import SelectAlgebra.Command.Arguments

/-!
# The source of a query on a command line

A query is given as an argument, by the name of a file or on the input.  How it is given has no say
in what the rest of a command line means.

Main results:

- Theorem `passesBy_add`: reading an argument leaves the source of the query alone.
- Theorem `parse_source`: a source may stand anywhere behind complete options.
-/

namespace SelectAlgebra.Arguments

/-! ## Sources -/

/-- Where a query comes from. -/
inductive Source where
  | argument (query : String)
  | file (path : String)
  | input

/-- The options with the source of the query. -/
def Source.into (o : Options) : Source → Options
  | argument query => { o with query }
  | file path => { o with file := path }
  | input => o

/-- How a source is given on a command line. -/
inductive Source.IsGivenBy : Source → List String → Prop
  /-- A query that is no option and no command stands alone. -/
  | argument {query : String} (hoption : looksLikeOption query = false)
    (hcommand : commandNames.lookup query = none) : IsGivenBy (.argument query) [query]
  /-- A path that is no option stands behind the name of its option. -/
  | file {path : String} (hpath : path.isEmpty = false) (hoption : looksLikeOption path = false) :
    IsGivenBy (.file path) ["--file", path]
  /-- Any path can stand behind an equals sign. -/
  | assigned {path : String} (hpath : path.isEmpty = false) :
    IsGivenBy (.file path) ["--file=" ++ path]
  /-- The input is what is left. -/
  | input : IsGivenBy .input []

/-- What has been read, with the source of the query. -/
def Reading.withSource (r : Reading) (s : Source) : Reading :=
  { r with options := s.into r.options }

/-- No query and no file of one has been read. -/
def Reading.IsSourceless (r : Reading) : Prop :=
  r.options.query = none ∧ r.options.file = none

/-! ## Reading passes by the source -/

/-- A step of the reading passes by the source: if it reads none, it does the same whatever the
source is. -/
def PassesBy (f : Reading → Except Interruption Reading) : Prop :=
  ∀ ⦃r r' : Reading⦄, f r = .ok r' → r'.IsSourceless →
    r.IsSourceless ∧ ∀ s : Source, f (r.withSource s) = .ok (r'.withSource s)

/-- Two steps that pass the source by pass it by together. -/
theorem PassesBy.bind {f g : Reading → Except Interruption Reading} (hf : PassesBy f)
    (hg : PassesBy g) : PassesBy fun r => f r >>= g := by
  intro r r' h hr'
  dsimp only at h
  cases hfr : f r with
  | error i =>
    rw [hfr] at h
    cases h
  | ok q =>
    rw [hfr] at h
    obtain ⟨hq, hgs⟩ := hg h hr'
    obtain ⟨hr, hfs⟩ := hf hfr hq
    exact ⟨hr, fun s => by dsimp only; rw [hfs s]; exact hgs s⟩

/-- A step that chooses what to do by anything but the options. -/
theorem PassesBy.of_choice {f : Reading → Except Interruption Reading}
    (h : ∀ awaiting plainOnly command, ∃ g, PassesBy g ∧
      ∀ o : Options, f ⟨o, awaiting, plainOnly, command⟩ = g ⟨o, awaiting, plainOnly, command⟩) :
    PassesBy f := by
  rintro ⟨o, awaiting, plainOnly, command⟩ r' hf hr'
  obtain ⟨g, hg, heq⟩ := h awaiting plainOnly command
  rw [heq] at hf
  obtain ⟨hsourceless, hsource⟩ := hg hf hr'
  exact ⟨hsourceless, fun s => (heq _).trans (hsource s)⟩

/-- A step that changes anything but the options. -/
theorem passesBy_update {update : Reading → Reading}
    (hoptions : ∀ r, (update r).options = r.options)
    (hsource : ∀ r s, update (Reading.withSource r s) = (update r).withSource s) :
    PassesBy fun r => .ok (update r) := by
  intro r r' h hr'
  cases h
  rw [Reading.IsSourceless, hoptions] at hr'
  exact ⟨hr', fun s => congrArg Except.ok (hsource r s)⟩

theorem passesBy_ok : PassesBy .ok :=
  passesBy_update (fun _ => rfl) fun _ _ => rfl

theorem passesBy_error (i : Interruption) : PassesBy fun _ => .error i := by
  intro r r' h
  cases h

theorem passesBy_turnOn (w : Switch) : PassesBy (·.turnOn w) := by
  rintro ⟨⟨query, file, format, output, config, pretty, noColor, verbose⟩, awaiting, plainOnly,
    command⟩ r' h hr'
  cases w <;> simp only [Reading.turnOn] at h
  all_goals first | (split at h <;> cases h) | cases h
  all_goals
    refine ⟨hr', fun s => ?_⟩
    cases s <;> simp_all [Reading.turnOn, Reading.withSource, Source.into]

theorem passesBy_set (k : Setting) (value : String) : PassesBy (·.set k value) := by
  rintro ⟨⟨query, file, format, output, config, pretty, noColor, verbose⟩, awaiting, plainOnly,
    command⟩ r' h hr'
  cases k <;> simp only [Reading.set] at h
  all_goals split at h <;> cases h
  case file => cases hr'.2
  all_goals
    refine ⟨hr', fun s => ?_⟩
    cases s <;> simp_all [Reading.set, Reading.withSource, Source.into]

theorem passesBy_await (k : Setting) : PassesBy fun r => .ok { r with awaiting := some k } :=
  passesBy_update (fun _ => rfl) fun _ _ => rfl

theorem passesBy_addLong (cs : List Char) : PassesBy (·.addLong cs) := by
  unfold Reading.addLong
  dsimp only
  split
  · split
    · exact passesBy_error _
    · exact passesBy_turnOn _
  · split
    · exact passesBy_set _ _
    · exact passesBy_await _
  · exact passesBy_error _

theorem passesBy_addShort (cs : List Char) : PassesBy (·.addShort cs) := by
  induction cs with
  | nil => exact passesBy_ok
  | cons c cs ih =>
    unfold Reading.addShort
    split
    · exact (passesBy_turnOn _).bind ih
    · split
      · exact passesBy_await _
      · exact passesBy_set _ _
      · exact passesBy_set _ _
    · exact passesBy_error _

theorem passesBy_command (c : CommandName × List String) :
    PassesBy fun r => .ok { r with command := some c } :=
  passesBy_update (fun _ => rfl) fun _ _ => rfl

theorem passesBy_plainOnly : PassesBy fun r => .ok { r with plainOnly := true } :=
  passesBy_update (fun _ => rfl) fun _ _ => rfl

/-- A reading without a source has read no query, so nothing is to be shown where one is read. -/
theorem passesBy_query (query : String) : PassesBy fun r =>
    if r.options.query.isSome then .error .misuse
    else .ok { r with options := { r.options with query } } := by
  intro r r' h hr'
  dsimp only at h
  split at h <;> cases h
  cases hr'.1

theorem passesBy_addTopic (topics : List String) (arg : String) :
    PassesBy fun r => r.addTopic topics arg := by
  unfold Reading.addTopic
  split
  · exact passesBy_command _
  · exact passesBy_error _

theorem passesBy_addPlain (arg : String) : PassesBy (·.addPlain arg) := by
  refine .of_choice fun awaiting plainOnly command => ?_
  rcases command with - | ⟨- | - | - | -, - | ⟨topic, topics⟩⟩
  case none =>
    cases hname : if plainOnly then none else commandNames.lookup arg with
    | some name =>
      exact ⟨_, passesBy_command (name, []), fun o => by simp only [Reading.addPlain, hname]⟩
    | none => exact ⟨_, passesBy_query arg, fun o => by simp only [Reading.addPlain, hname]⟩
  case some.explain.nil => exact ⟨_, passesBy_command (.explain, [arg]), fun _ => rfl⟩
  case some.symbols.nil => exact ⟨_, passesBy_command (.symbols, [arg]), fun _ => rfl⟩
  all_goals exact ⟨_, passesBy_error .misuse, fun _ => rfl⟩

/-- In front of every command an option is a long one or a row of short ones. -/
theorem addOption_of_command_eq_none {r : Reading} (h : r.command = none) (arg : String) :
    r.addOption arg =
      match arg.toList with
      | '-' :: '-' :: cs => r.addLong cs
      | _ :: cs => r.addShort cs
      | [] => .error .misuse := by
  rw [Reading.addOption, h]
  cases arg.toList with
  | nil => rfl
  | cons c cs => split <;> simp_all

/-- An option passes the source by. -/
theorem passesBy_addOption (arg : String) : PassesBy (·.addOption arg) := by
  have hoption : PassesBy fun r =>
      match arg.toList with
      | '-' :: '-' :: cs => r.addLong cs
      | _ :: cs => r.addShort cs
      | [] => .error .misuse := by
    split
    · exact passesBy_addLong _
    · exact passesBy_addShort _
    · exact passesBy_error _
  intro r r' h hr'
  dsimp only at h ⊢
  cases hcommand : r.command with
  | none =>
    rw [addOption_of_command_eq_none hcommand] at h
    obtain ⟨hsourceless, hsource⟩ := hoption h hr'
    refine ⟨hsourceless, fun s => ?_⟩
    rw [addOption_of_command_eq_none (r := r.withSource s) hcommand]
    exact hsource s
  | some c =>
    -- Behind a command every option ends the reading.
    rw [Reading.addOption, hcommand] at h
    split at h <;> first | contradiction | (split at h <;> contradiction)

/-- Reading an argument leaves the source of the query alone. -/
theorem passesBy_add (arg : String) : PassesBy (·.add arg) := by
  refine .of_choice fun awaiting plainOnly command => ?_
  cases awaiting with
  | some k =>
    cases hoption : looksLikeOption arg with
    | true => exact ⟨_, passesBy_error .misuse, fun o => by simp [Reading.add, hoption]⟩
    | false => exact ⟨_, passesBy_set k arg, fun o => by simp [Reading.add, hoption]⟩
  | none =>
    by_cases htopic : ∃ topics, command = some (.help, topics)
    · obtain ⟨topics, rfl⟩ := htopic
      exact ⟨_, passesBy_addTopic topics arg, fun _ => rfl⟩
    · have hadd (o : Options) : Reading.add ⟨o, none, plainOnly, command⟩ arg =
          if plainOnly || !looksLikeOption arg then
            Reading.addPlain ⟨o, none, plainOnly, command⟩ arg
          else if arg = "--" then .ok ⟨o, none, true, command⟩
          else Reading.addOption ⟨o, none, plainOnly, command⟩ arg := by
        rcases command with - | ⟨- | - | - | -, topics⟩
        case some.help => exact absurd ⟨topics, rfl⟩ htopic
        all_goals rfl
      by_cases hplain : plainOnly || !looksLikeOption arg
      · exact ⟨_, passesBy_addPlain arg, fun o => by rw [hadd, if_pos hplain]⟩
      · by_cases hhyphens : arg = "--"
        · exact ⟨_, passesBy_plainOnly, fun o => by rw [hadd, if_neg hplain, if_pos hhyphens]⟩
        · exact ⟨_, passesBy_addOption arg, fun o => by
            rw [hadd, if_neg hplain, if_neg hhyphens]⟩

/-- Arguments pass the source by one after the other. -/
theorem passesBy_foldlM (args : List String) : PassesBy (args.foldlM Reading.add) := by
  induction args with
  | nil => exact passesBy_ok
  | cons arg args ih => exact (passesBy_add arg).bind ih

/-! ## Whole command lines -/

/-- When a command line ends well. -/
theorem finish_eq_ok_iff {r : Reading} {configured : Option String} {o : Options} {task : Task} :
    r.finish configured = .ok (o, task) ↔
      r.awaiting = none ∧ r.task = .ok task ∧
        ¬ (r.options.config.isNone && configured == some "") ∧
        ¬ (r.options.query.isSome && r.options.file.isSome) ∧
        { r.options with config := r.options.config <|> configured } = o := by
  rw [Reading.finish]
  cases r.awaiting with
  | some k => simp [bind, Except.bind]
  | none =>
    cases r.task with
    | error i => simp [bind, Except.bind]
    | ok t =>
      by_cases hconfig : r.options.config.isNone && configured == some ""
      · simp [bind, Except.bind, hconfig]
      · by_cases hboth : r.options.query.isSome && r.options.file.isSome
        · simp [bind, Except.bind, hconfig, hboth]
        · simp [bind, Except.bind, pure, Except.pure, hconfig, hboth, and_comm]

/-- A source is read as what it is. -/
theorem foldlM_isGivenBy {s : Source} {args : List String} (h : s.IsGivenBy args) {o : Options}
    (hquery : o.query = none) (hfile : o.file = none) :
    args.foldlM Reading.add { options := o } = .ok { options := s.into o } := by
  cases h with
  | argument hoption hcommand =>
    rename_i query
    have hadd : Reading.add { options := o } query =
        .ok { options := { o with query } } := by
      simp [Reading.add, hoption, Reading.addPlain, hcommand, hquery]
    simp [hadd, Source.into]
  | file hpath hoption =>
    rename_i path
    have hname : Reading.add { options := o } "--file" =
        .ok { options := o, awaiting := some .file } := rfl
    have hadd : Reading.add { options := o, awaiting := some .file } path =
        .ok { options := { o with file := path } } := by
      simp [Reading.add, hoption, Reading.set, hpath, hfile]
    rw [List.foldlM_cons, hname]
    change List.foldlM Reading.add _ [path] = _
    simp [hadd, Source.into]
  | assigned hpath =>
    rename_i path
    have hadd : Reading.add { options := o } ("--file=" ++ path) =
        .ok { options := { o with file := path } } := by
      have hname : "--file=" ++ path ≠ "--" := by
        intro h
        have hlist := congrArg String.toList h
        simp at hlist
      have hlong : List.lookup "file" longSwitches = none := rfl
      have hsetting : List.lookup "file" longSettings = some .file := rfl
      simp [Reading.add, looksLikeOption, Reading.addOption, Reading.addLong, hname, hlong,
        hsetting, Reading.set, hpath, hfile]
    simp [hadd, Source.into]
  | input => rfl

/-- A command line is read to its end and checked there. -/
theorem parse_eq_ok_iff {configured : Option String} {args : List String} {p : Options × Task} :
    parse configured args = .ok p ↔
      ∃ r, args.foldlM Reading.add {} = .ok r ∧ r.finish configured = .ok p := by
  rw [parse]
  cases args.foldlM Reading.add {} with
  | error i => simp [bind, Except.bind]
  | ok r => simp [bind, Except.bind]

/-- What stands behind arguments is read from where they lead. -/
theorem foldlM_append_of_eq_ok {args : List String} {q r : Reading}
    (h : args.foldlM Reading.add q = .ok r) (more : List String) :
    (args ++ more).foldlM Reading.add q = more.foldlM Reading.add r := by
  rw [List.foldlM_append, h]
  rfl

/-- A source may stand anywhere behind complete options. -/
theorem parse_source {configured : Option String} {front args back : List String}
    {o₁ o : Options} {s : Source} (hfront : front.foldlM Reading.add {} = .ok { options := o₁ })
    (hargs : s.IsGivenBy args) (hparse : parse configured (front ++ back) = .ok (o, .answer))
    (hquery : o.query = none) (hfile : o.file = none) :
    parse configured (front ++ args ++ back) = .ok (s.into o, .answer) := by
  obtain ⟨r, hback, hfinish⟩ := parse_eq_ok_iff.1 hparse
  rw [foldlM_append_of_eq_ok hfront] at hback
  obtain ⟨hawaiting, htask, hconfig, -, rfl⟩ := finish_eq_ok_iff.1 hfinish
  obtain ⟨hstart, hsource⟩ := passesBy_foldlM back hback ⟨hquery, hfile⟩
  have hread : (front ++ args).foldlM Reading.add {} =
      .ok (Reading.withSource { options := o₁ } s) := by
    rw [foldlM_append_of_eq_ok hfront]
    exact foldlM_isGivenBy hargs hstart.1 hstart.2
  refine parse_eq_ok_iff.2 ⟨r.withSource s, ?_, finish_eq_ok_iff.2 ⟨hawaiting, htask, ?_⟩⟩
  · rw [foldlM_append_of_eq_ok hread]
    exact hsource s
  · cases s <;> simp_all [Reading.withSource, Source.into]

end SelectAlgebra.Arguments
