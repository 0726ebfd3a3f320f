import Mathlib.Logic.Function.Iterate
import SelectAlgebra.Proofs.Command.Answer
import SelectAlgebra.Proofs.Host.Lines
import SelectAlgebra.Proofs.Lists

/-!
# Transcripts of sessions

A session handles its lines one by one.  What a line produces depends on the line and on the layout
in force alone, and the layout on how often it has been switched.  A query produces what a run of
its own would write, so the transcript of a session is put together from runs that know nothing of
each other.

The machine is known by what can be seen of it alone: what it writes, what it reports, which lines
its line editor has still to hand over and which lines the history has been offered.  The editor
hands over the lines one by one; what it does with its history is left to it.

Main results:

- Theorem `SessionHost.handle`: what one line produces, and the state that it leaves.
- Theorem `SessionHost.lines`: what all lines produce, up to the one that leaves the session.
- Theorem `session_transcript`: a session is the independent processing of its lines.
- Theorem `Environment.sessionHost`: an environment can be seen in this way.
-/

namespace SelectAlgebra

namespace Session

/-! ## The lines of a session -/

/-- The lines that leave a session. -/
def leavingLines : List String :=
  [".exit", ".quit", "exit", "quit"]

/-- The lines without their outer blanks, blank ones left out. -/
def filled (lines : List String) : List String :=
  (lines.map trimmed).filter fun line => !line.isEmpty

/-- The lines in front of the first that leaves the session. -/
def asked (lines : List String) : List String :=
  lines.take (lines.findIdx (leavingLines.contains ·))

/-- The lines up to the first that leaves the session, and that one. -/
def heard (lines : List String) : List String :=
  lines.take (lines.findIdx (leavingLines.contains ·) + 1)

/-- Blank lines are left out. -/
theorem filled_cons_of_blank {line : String} (lines : List String)
    (h : (trimmed line).isEmpty = true) : filled (line :: lines) = filled lines := by
  simp [filled, h]

/-- Lines that are not blank are kept without their outer blanks. -/
theorem filled_cons {line : String} (lines : List String) (h : (trimmed line).isEmpty = false) :
    filled (line :: lines) = trimmed line :: filled lines := by
  simp [filled, h]

@[simp]
theorem asked_nil : asked [] = [] :=
  rfl

@[simp]
theorem heard_nil : heard [] = [] :=
  rfl

/-- Nothing is asked from a leaving line on. -/
theorem asked_cons_of_leaving {line : String} (lines : List String)
    (h : line ∈ leavingLines) : asked (line :: lines) = [] := by
  simp [asked, List.findIdx_cons, h]

/-- Any other line is asked. -/
theorem asked_cons {line : String} (lines : List String) (h : line ∉ leavingLines) :
    asked (line :: lines) = line :: asked lines := by
  simp [asked, List.findIdx_cons, h]

/-- A leaving line is the last that is heard. -/
theorem heard_cons_of_leaving {line : String} (lines : List String)
    (h : line ∈ leavingLines) : heard (line :: lines) = [line] := by
  simp [heard, List.findIdx_cons, h]

/-- Behind any other line more is heard. -/
theorem heard_cons {line : String} (lines : List String) (h : line ∉ leavingLines) :
    heard (line :: lines) = line :: heard lines := by
  simp [heard, List.findIdx_cons, h]

/-! ## Requests -/

/-- A command is asked by the lines that are listed with it. -/
theorem ofLine_eq_iff {line : String} {r : Request} (hquery : ∀ text, r ≠ .query text) :
    Request.ofLine line = r ↔ (line, r) ∈ commands := by
  rw [← List.lookup_eq_some_iff_mem (by decide : (commands.map Prod.fst).Nodup), Request.ofLine]
  cases commands.lookup line with
  | none => simp [(hquery line).symm]
  | some r' => simp

/-- The lines that leave a session are those that ask for it. -/
theorem ofLine_eq_leave_iff (line : String) :
    Request.ofLine line = .leave ↔ line ∈ leavingLines := by
  rw [ofLine_eq_iff (by simp)]
  simp [commands, leavingLines]

/-- One line alone switches the layout. -/
theorem ofLine_eq_switchLayout_iff (line : String) :
    Request.ofLine line = .switchLayout ↔ line = ".pretty" := by
  rw [ofLine_eq_iff (by simp)]
  simp [commands]

/-! ## The layout in force -/

/-- The layout in force behind lines: it is switched once for every line that asks for it. -/
def layoutBehind (pretty : Bool) (lines : List String) : Bool :=
  not^[lines.count ".pretty"] pretty

@[simp]
theorem layoutBehind_nil (pretty : Bool) : layoutBehind pretty [] = pretty :=
  rfl

/-- The first line switches the layout for the lines behind it, if it asks for that. -/
theorem layoutBehind_cons (pretty : Bool) (line : String) (lines : List String) :
    layoutBehind pretty (line :: lines) =
      layoutBehind (if line = ".pretty" then !pretty else pretty) lines := by
  by_cases h : line = ".pretty"
  · simp [layoutBehind, h]
  · simp [layoutBehind, h]

/-! ## What a line produces -/

/-- What a query produces: its algebra behind an arrow or its tree, and an empty line; or the
message that it is none. -/
def queryAnswer (pretty : Bool) (text : String) : Answer :=
  match Query.ofText? text with
  | none => { errors := "✗ query is not a parseable SELECT statement\n" }
  | some q =>
    { output := (if pretty then trimmedEnd q.toExpr.tree else "→ " ++ q.toExpr.oneLine) ++ "\n\n" }

/-- What a filled line without outer blanks produces under the layout in force: a command what it
shows, any other line what a query does. -/
def produced (pretty : Bool) (line : String) : Answer :=
  match commands.lookup line with
  | some command => answer ⟨false⟩ pretty command
  | none => queryAnswer pretty line

/-- What lines produce one after the other, each by itself under the layout in force at it. -/
def productions (pretty : Bool) (lines : List String) : List Answer :=
  lines.mapIdx fun i line => produced (layoutBehind pretty (lines.take i)) line

@[simp]
theorem productions_nil (pretty : Bool) : productions pretty [] = [] :=
  rfl

/-- The first line produces under the layout at the start, and the others behind it. -/
theorem productions_cons (pretty : Bool) (line : String) (lines : List String) :
    productions pretty (line :: lines) =
      produced pretty line :: productions (layoutBehind pretty [line]) lines := by
  simp [productions, List.mapIdx_cons, layoutBehind_cons]

/-- A query is answered by what it produces. -/
theorem answerQuery_eq (pretty : Bool) (text : String) :
    answerQuery ⟨false⟩ pretty text = queryAnswer pretty text := by
  rw [answerQuery, queryAnswer]
  cases Query.ofText? text with
  | none => rfl
  | some q =>
    cases pretty <;>
      simp [Explanation.ofLines, Query.algebra_false, Query.algebra_true, String.append_assoc]

/-- A line is answered by what it produces. -/
theorem answer_ofLine (pretty : Bool) (line : String) :
    answer ⟨false⟩ pretty (Request.ofLine line) = produced pretty line := by
  rw [produced, Request.ofLine]
  cases commands.lookup line with
  | none => exact answerQuery_eq pretty line
  | some r => rfl

/-! ## What can be seen of a machine -/

/-- What can be seen of a machine on which a session runs. -/
structure View where
  /-- The lines that the line editor has still to hand over. -/
  pending : List String
  output : String
  errors : String
  /-- The lines that the history has been offered, from the first to the last. -/
  offered : List String
  /-- The home folder of the user. -/
  home : Option String

variable {σ : Type} [Host (StateM σ)]

/-- A machine whose states show what a session does.  What is written, reported and offered to the
history can be seen, and nothing else that a session asks for changes what can be seen.  The line
editor is ready and hands over the lines that it has, one by one. -/
structure SessionHost (c : SessionConfig) (Shows : σ → View → Prop) : Prop where
  write : ∀ {st v}, Shows st v → ∀ text,
    Shows (runFrom st (Host.write text)).2 { v with output := v.output ++ text }
  writeError : ∀ {st v}, Shows st v → ∀ text,
    Shows (runFrom st (Host.writeError text)).2 { v with errors := v.errors ++ text }
  offerLine : ∀ {st v}, Shows st v → ∀ line,
    Shows (runFrom st (Host.offerLine line)).2 { v with offered := v.offered ++ [line] }
  warn : ∀ {st v}, Shows st v → ∀ text, Shows (runFrom st (Host.warn text)).2 v
  homeFolder? : ∀ {st v}, Shows st v →
    (runFrom st Host.homeFolder?).1 = v.home ∧ Shows (runFrom st Host.homeFolder?).2 v
  pathExists : ∀ {st v}, Shows st v → ∀ path, Shows (runFrom st (Host.pathExists path)).2 v
  startEditor : ∀ {st v}, Shows st v →
    (runFrom st Host.startEditor).1 = .ok () ∧ Shows (runFrom st Host.startEditor).2 v
  loadHistory : ∀ {st v}, Shows st v → ∀ path ∈ c.historyPath? v.home,
    Shows (runFrom st (Host.loadHistory path)).2 v
  saveHistory : ∀ {st v}, Shows st v → ∀ path ∈ c.historyPath? v.home,
    Shows (runFrom st (Host.saveHistory path)).2 v
  forLines : ∀ {st v}, Shows st v → ∃ st', Shows st' { v with pending := [] } ∧
    ∀ prompt pretty (step : Bool → Except LineError String → StateM σ (Continue Bool)),
      runFrom st (Host.forLines prompt pretty step) =
        runFrom st' (eachLine step pretty (v.pending.map .ok))

namespace SessionHost

variable {c : SessionConfig} {Shows : σ → View → Prop} {st : σ} {v : View}

/-! ### One line -/

/-- A filled line is offered to the history and then answered by what it produces.  It stops the
session or goes on under the layout behind it. -/
theorem handle (h : SessionHost c Shows) (hst : Shows st v) (pretty : Bool) (line : String) :
    ∃ st', runFrom st (Session.handle ⟨false⟩ pretty line) =
        (if line ∈ leavingLines then .stop pretty else .next (layoutBehind pretty [line]), st') ∧
      Shows st' { v with
        output := v.output ++ (produced pretty line).output,
        errors := v.errors ++ (produced pretty line).errors,
        offered := v.offered ++ [line] } := by
  have hoffered := h.offerLine hst line
  have hwritten := h.write hoffered (produced pretty line).output
  refine ⟨_, ?_, h.writeError hwritten (produced pretty line).errors⟩
  simp only [Session.handle, runFrom_bind, answer_ofLine]
  by_cases hleaving : line ∈ leavingLines
  · simp [(ofLine_eq_leave_iff line).2 hleaving, hleaving]
  · have hrequest : Request.ofLine line ≠ .leave :=
      fun hleave => hleaving ((ofLine_eq_leave_iff line).1 hleave)
    simp [hrequest, hleaving, ofLine_eq_switchLayout_iff, layoutBehind_cons]

/-- A blank line is passed over. -/
theorem runFrom_step_blank {line : String} (h : (trimmed line).isEmpty = true) (st : σ)
    (pretty : Bool) : runFrom st (step ⟨false⟩ pretty (.ok line)) = (.next pretty, st) := by
  rw [step, if_pos h, runFrom_pure]

/-- A filled line is handled without its outer blanks. -/
theorem step_filled {line : String} (h : (trimmed line).isEmpty = false) (pretty : Bool) :
    step (m := StateM σ) ⟨false⟩ pretty (.ok line) =
      Session.handle ⟨false⟩ pretty (trimmed line) := by
  rw [step, if_neg (by simp [h])]

/-! ### All lines -/

/-- What a leaving line shows is the farewell. -/
theorem produced_of_leaving {line : String} (h : line ∈ leavingLines) (pretty : Bool) :
    produced pretty line = { output := "Goodbye!\n" } := by
  rw [← answer_ofLine, (ofLine_eq_leave_iff line).2 h]
  rfl

/-- The lines of a session produce what each of them produces, up to the one that leaves the
session, and then the farewell.  All lines up to that one are offered to the history. -/
theorem lines (h : SessionHost c Shows) (hst : Shows st v) (pretty : Bool) (lines : List String) :
    Shows (runFrom st (eachLine (step ⟨false⟩) pretty (lines.map .ok) >>= ending ⟨false⟩)).2
      { v with
        output := v.output ++ (String.join
          ((productions pretty (asked (filled lines))).map Answer.output) ++ "Goodbye!\n"),
        errors := v.errors ++ String.join
          ((productions pretty (asked (filled lines))).map Answer.errors),
        offered := v.offered ++ heard (filled lines) } := by
  induction lines generalizing st v pretty with
  | nil => simpa [ending, farewell, filled, Explanation.ofLines] using h.write hst "Goodbye!\n"
  | cons line lines ih =>
    rw [List.map_cons, runFrom_bind]
    cases hblank : (trimmed line).isEmpty with
    | true =>
      rw [runFrom_eachLine_cons_next _ (runFrom_step_blank hblank st pretty), ← runFrom_bind,
        filled_cons_of_blank _ hblank]
      exact ih hst pretty
    | false =>
      obtain ⟨st', hrun, hshows⟩ := h.handle hst pretty (trimmed line)
      rw [← step_filled hblank] at hrun
      rw [filled_cons _ hblank]
      by_cases hleaving : trimmed line ∈ leavingLines
      · rw [if_pos hleaving] at hrun
        rw [runFrom_eachLine_cons_stop _ hrun, asked_cons_of_leaving _ hleaving,
          heard_cons_of_leaving _ hleaving]
        rw [produced_of_leaving hleaving] at hshows
        simpa [ending] using hshows
      · rw [if_neg hleaving] at hrun
        rw [runFrom_eachLine_cons_next _ hrun, ← runFrom_bind, asked_cons _ hleaving,
          heard_cons _ hleaving, productions_cons]
        simpa [String.append_assoc] using ih hshows (layoutBehind pretty [trimmed line])

/-! ### The whole session -/

/-- Opening the history changes nothing that can be seen. -/
theorem openHistory (h : SessionHost c Shows) (hst : Shows st v) :
    Shows (runFrom st (openHistory (c.historyPath? v.home))).2 v := by
  cases hpath : c.historyPath? v.home with
  | none => exact hst
  | some path =>
    rw [Session.openHistory, runFrom_bind]
    have hfound := h.pathExists hst path
    cases (runFrom st (Host.pathExists path)).1 with
    | false => exact hfound
    | true =>
      have hloaded := h.loadHistory hfound path hpath
      simp only [if_true, runFrom_bind]
      cases (runFrom (runFrom st (Host.pathExists path)).2 (Host.loadHistory path)).1 with
      | ok _ => exact hloaded
      | error cause => exact h.warn hloaded _

/-- Closing the history changes nothing that can be seen. -/
theorem closeHistory (h : SessionHost c Shows) (hst : Shows st v) :
    Shows (runFrom st (closeHistory (c.historyPath? v.home))).2 v := by
  cases hpath : c.historyPath? v.home with
  | none => exact hst
  | some path =>
    have hsaved := h.saveHistory hst path hpath
    rw [Session.closeHistory, runFrom_bind]
    cases (runFrom st (Host.saveHistory path)).1 with
    | ok _ => exact hsaved
    | error cause => exact h.warn hsaved _

/-- A session shows its banner, then what its lines produce, and its farewell. -/
theorem run (h : SessionHost c Shows) (hst : Shows st v) (pretty : Bool) :
    Shows (runFrom st (Session.run ⟨false⟩ c pretty)).2
      { v with
        pending := [],
        output := v.output ++ Explanation.ofLines (banner ⟨false⟩) ++ (String.join
          ((productions pretty (asked (filled v.pending))).map Answer.output) ++ "Goodbye!\n"),
        errors := v.errors ++ String.join
          ((productions pretty (asked (filled v.pending))).map Answer.errors),
        offered := v.offered ++ heard (filled v.pending) } := by
  have hbanner := h.write hst (Explanation.ofLines (banner ⟨false⟩))
  obtain ⟨hready, hstarted⟩ := h.startEditor hbanner
  obtain ⟨hhome, hasked⟩ := h.homeFolder? hstarted
  have hopened := h.openHistory hasked
  obtain ⟨st', hst', hlines⟩ := h.forLines hopened
  have hended := h.lines hst' pretty v.pending
  rw [runFrom_bind, ← hlines (Palette.paint ⟨false⟩ (Style.ofColor .cyan).inBold c.prompt),
    ← runFrom_bind] at hended
  have hclosed := h.closeHistory hended
  simpa only [Session.run, runFrom_bind, hready, hhome] using hclosed

end SessionHost

end Session

namespace Environment

/-! ## What can be seen of an environment -/

/-- An environment shows what a session does: its terminal can edit lines, so that nothing is
written for a prompt, and the history file is no device. -/
structure Shows (c : SessionConfig) (e : Environment) (v : Session.View) : Prop where
  pending : e.pending = v.pending.map .ok
  output : e.output = v.output
  errors : e.errors = v.errors
  offered : e.editor.offered = v.offered
  home : e.homeFolder? = v.home
  terminal : showsPrompt false (e.valueOf? "TERM") = false
  history : ∀ path ∈ c.historyPath? v.home, ∀ d : Device, e.files.locate path ≠ .ok d.location

/-- A path that leads to the location of no device leads to no device. -/
theorem at?_eq_none {t : FileTree} {path : String}
    (h : ∀ d : Device, t.locate path ≠ .ok d.location) : Device.at? t path = none := by
  rw [Device.at?]
  cases hlocate : t.locate path with
  | error cause => rfl
  | ok l =>
    have hnone : Device.all.find? (fun d => d.location = l) = none := by
      rw [List.find?_eq_none]
      intro d _ hd
      exact h d (hlocate.trans (congrArg _ (of_decide_eq_true hd).symm))
    simp [hnone]

/-- Lines that were written one by one, without a backspace, are handed over as they are. -/
theorem pending_eq_lines {e : Environment} {lines : List String}
    (hinput : e.input = (String.join (lines.map (· ++ "\n"))).toUTF8)
    (hfeed : ∀ line ∈ lines, '\n' ∉ line.toList)
    (hreturn : ∀ line ∈ lines, line.toList.getLast? ≠ some '\r')
    (hplain : ∀ line ∈ lines, Text.backspace ∉ line.toList) : e.pending = lines.map .ok := by
  rw [pending, hinput, textLines_lines hfeed hreturn, List.map_map]
  apply List.map_congr_left
  intro line hline
  simp [handedOver, Text.withoutBackspaces_of_not_mem (hplain line hline)]

/-- An environment can be seen as a machine on which sessions run. -/
theorem sessionHost (c : SessionConfig) : Session.SessionHost c (Shows c) where
  write hst text := { hst with output := congrArg (· ++ text) hst.output }
  writeError hst text := { hst with errors := congrArg (· ++ text) hst.errors }
  offerLine hst line := { hst with offered := congrArg (· ++ [line]) hst.offered }
  warn hst _ := { hst with }
  homeFolder? hst := ⟨hst.home, hst⟩
  pathExists hst _ := hst
  startEditor hst := ⟨rfl, hst⟩
  loadHistory hst path hpath := by
    obtain ⟨loaded, hloaded⟩ := runFrom_loadHistory_frame (at?_eq_none (hst.history path hpath))
    rw [hloaded]
    exact { hst with }
  saveHistory {e v} hst path hpath := by
    obtain ⟨files, hsaved, hfiles⟩ :=
      runFrom_saveHistory_frame (at?_eq_none (hst.history path hpath))
    rw [hsaved]
    have hhistory : ∀ path ∈ c.historyPath? v.home, ∀ d : Device,
        files.locate path ≠ .ok d.location := by
      intro path hpath d hd
      rcases hfiles with rfl | ⟨bytes, hwrite⟩
      · exact hst.history path hpath d hd
      · obtain ⟨written, rfl⟩ := FileTree.eq_of_write hwrite
        have hbefore : e.files.locate path = .ok d.location :=
          @FileTree.locate_of_files { e.files with files := written } e.files.files _ _ hd
        exact hst.history path hpath d hbefore
    exact { hst with history := hhistory }
  forLines {e v} hst := by
    have hpending : { e with input := .empty }.pending = [] := by rw [pending, textLines_empty]; rfl
    refine ⟨_, { hst with pending := hpending }, fun prompt pretty step => ?_⟩
    rw [runFrom_forLines hst.terminal, hst.pending]

end Environment

namespace Command

open Environment

/-! ## Queries by themselves -/

/-- An environment with nothing in it. -/
def bareEnvironment : Environment :=
  { files := ⟨[], [], []⟩, bindings := [], input := .empty }

/-- What a session shows in place of what a run of its own leaves behind.  The one-line form stands
behind an arrow, an answer is followed by an empty line, and a failure is marked in another way. -/
def ofOneShot (pretty : Bool) (final : Nat × Environment) : Session.Answer :=
  if final.1 = 0 then { output := (if pretty then "" else "→ ") ++ final.2.output ++ "\n" }
  else { errors := "✗" ++ String.ofList (final.2.errors.toList.drop "Error:".toList.length) }

/-- A query produces in a session what the run that answers it alone leaves behind. -/
theorem ofOneShot_run {lib : Libraries} {args : List String} {pretty : Bool} {text : String}
    (hargs : lib.readArguments none args = .ok ({ query := some text, pretty }, .answer)) :
    ofOneShot pretty (runFrom bareEnvironment (run args lib)) =
      Session.queryAnswer pretty text := by
  have hload : runFrom bareEnvironment (Config.load none lib.parseToml?) =
      (.ok {}, bareEnvironment) := rfl
  have hrun : runFrom bareEnvironment (run args lib) = runFrom bareEnvironment
      (answer lib ⟨false⟩ ⟨.text, pretty⟩ none text >>= report ⟨false⟩) := by
    rw [runFrom_run hargs hload (Or.inr (Or.inr (Or.inl rfl)))]
    simp only [perform, queryText?, layoutOf, Option.getD_none, Bool.or_false, runFrom_bind,
      runFrom_pure]
  rw [hrun, Session.queryAnswer, runFrom_bind]
  cases hq : Query.ofText? text with
  | none =>
    rw [runFrom_answer_none lib hq, runFrom_report_error]
    cases pretty <;> decide +kernel
  | some q =>
    rw [runFrom_answer_some lib hq, answerText_text lib rfl, report, runFrom_pure]
    cases pretty <;>
      simp [ofOneShot, bareEnvironment, Query.algebra_false, Query.algebra_true,
        String.append_assoc]

/-! ## The whole session -/

/-- A session is the independent processing of its lines.  What each filled line in front of the one
that leaves the session produces by itself, under the layout in force at it, stands on the output
behind the banner, one after the other, and then the farewell; so it is with the errors.  These
lines and the one that leaves the session are offered to the history, in order and no other.  A line
that is no command produces its algebra or the message that it asks no query, as a run of its own
does. -/
theorem session_transcript {σ : Type} [Host (StateM σ)] {c : SessionConfig}
    {Shows : σ → Session.View → Prop} (h : Session.SessionHost c Shows) {st : σ}
    {v : Session.View} (hst : Shows st v) (pretty : Bool) :
    let filled := Session.filled v.pending
    let answers := Session.productions pretty (Session.asked filled)
    Shows (runFrom st (Session.run ⟨false⟩ c pretty)).2
      { v with
        pending := [],
        output := v.output ++ Explanation.ofLines (Session.banner ⟨false⟩) ++
          (String.join (answers.map Session.Answer.output) ++ "Goodbye!\n"),
        errors := v.errors ++ String.join (answers.map Session.Answer.errors),
        offered := v.offered ++ Session.heard filled } ∧
      ∀ (layout : Bool) (text : String), Session.commands.lookup text = none →
        Session.produced layout text =
          (match Query.ofText? text with
          | none => { errors := "✗ query is not a parseable SELECT statement\n" }
          | some q =>
            if layout then { output := trimmedEnd q.toExpr.tree ++ "\n\n" }
            else { output := "→ " ++ q.toExpr.oneLine ++ "\n\n" }) ∧
        ∀ (lib : Libraries) (args : List String),
          lib.readArguments none args =
            .ok ({ query := some text, pretty := layout }, .answer) →
          ofOneShot layout (runFrom bareEnvironment (run args lib)) =
            Session.produced layout text := by
  refine ⟨h.run hst pretty, fun layout text hcommand => ?_⟩
  have hproduced : Session.produced layout text = Session.queryAnswer layout text := by
    rw [Session.produced, hcommand]
  refine ⟨?_, fun lib args hargs => (ofOneShot_run hargs).trans hproduced.symm⟩
  rw [hproduced, Session.queryAnswer]
  cases Query.ofText? text with
  | none => rfl
  | some q => cases layout <;> rfl

/-- Lines that switch the layout, ask a query, ask none and leave the session early. -/
def switchingLines : List String :=
  [" .pretty", "", "SELECT a FROM t ", "nonsense", ".exit", "SELECT b FROM u"]

/-- A user with a history file, whose lines stand on the input. -/
def switchingEnvironment : Environment :=
  { files := ⟨[["home"]], [(["home", ".sqlra_history"], "#V2\nSELECT 1 FROM t\n".toUTF8)], []⟩,
    bindings := [("HOME", "/home")],
    input := (String.join (switchingLines.map (· ++ "\n"))).toUTF8 }

/-- A session switches its layout before the query, passes over the blank line and remembers the
lines up to the one that leaves it, without their outer blanks. -/
theorem session_transcript_switchingLines :
    let final := (runFrom switchingEnvironment (Session.run ⟨false⟩ {} true)).2
    final.output = Explanation.ofLines (Session.banner ⟨false⟩) ++
        "Tree layout: off\n→ π[a](t)\n\nGoodbye!\n" ∧
      final.errors = "✗ query is not a parseable SELECT statement\n" ∧
      final.editor.offered = [".pretty", "SELECT a FROM t", "nonsense", ".exit"] := by
  intro final
  let v : Session.View := ⟨switchingLines, "", "", [], some "/home"⟩
  have hst : Environment.Shows {} switchingEnvironment v :=
    { pending := Environment.pending_eq_lines rfl (by decide) (by decide) (by decide)
      output := rfl
      errors := rfl
      offered := rfl
      home := rfl
      terminal := rfl
      history := by
        rintro path ⟨⟩ d hd
        have hfile : switchingEnvironment.files.locate "/home/.sqlra_history" =
            .ok ["home", ".sqlra_history"] := rfl
        have hlocation := Except.ok.inj (hfile.symm.trans hd)
        cases d <;> contradiction }
  have hfilled : Session.filled switchingLines =
      [".pretty", "SELECT a FROM t", "nonsense", ".exit", "SELECT b FROM u"] := by
    decide +kernel
  have hasked : Session.productions true (Session.asked (Session.filled switchingLines)) =
      [{ output := "Tree layout: off\n" }, { output := "→ π[a](t)\n\n" },
        { errors := "✗ query is not a parseable SELECT statement\n" }] := by
    rw [hfilled]
    decide +kernel
  have hheard : Session.heard (Session.filled switchingLines) =
      [".pretty", "SELECT a FROM t", "nonsense", ".exit"] := by
    rw [hfilled]
    decide +kernel
  obtain ⟨hshows, -⟩ := session_transcript (Environment.sessionHost {}) hst true
  refine ⟨hshows.output.trans ?_, hshows.errors.trans ?_, hshows.offered.trans ?_⟩
  · rw [hasked]
    simp [v]
  · rw [hasked]
    simp [v]
  · rw [hheard]
    rfl

end Command

end SelectAlgebra
