import SelectAlgebra.Host
import SelectAlgebra.Text
import SelectAlgebra.Text.Backspace

/-!
# A line editor

The editor hands over the lines of its input one by one.  The input is cut into lines before it is
read as text, so that one line that is not text does not spoil the others, and backspaces take back
what was typed before them.

The editor remembers the lines that it is offered, the last hundred of them, and a line that is the
same as the one before it only once.  A history file starts with a mark and holds a line for every
entry, with line feeds and backslashes escaped; without the mark its lines are taken as they are.
-/

namespace SelectAlgebra

/-! ## Lines of bytes -/

/-- The parts of a list that end behind each element with the property, and the rest unless it is
empty. -/
def cutAfter {α : Type} (p : α → Bool) : List α → List (List α)
  | [] => []
  | a :: as =>
    if p a then [a] :: cutAfter p as
    else
      match cutAfter p as with
      | [] => [[a]]
      | part :: parts => (a :: part) :: parts

/-- A text without its line end: a line feed and one carriage return in front of it. -/
def withoutLineEnd (line : String) : String :=
  match line.toList.reverse with
  | '\n' :: '\r' :: cs => String.ofList cs.reverse
  | '\n' :: cs => String.ofList cs.reverse
  | _ => line

/-- The lines of a text given as bytes, each read by itself and without its line end. -/
def textLines (bytes : ByteArray) : List (Except AccessError String) :=
  (cutAfter (· == 10) bytes.toList).map fun line =>
    (decodeText ⟨line.toArray⟩).map withoutLineEnd

/-! ## Lines that are handed over -/

/-- What is handed over for a line: its text when the backspaces have taken effect. -/
def handedOver : Except AccessError String → Except LineError String
  | .ok line => .ok (String.ofList (Text.withoutBackspaces line.toList))
  | .error cause =>
    .error (.failed ("Io(Error \x7b kind: InvalidData, message: \x22" ++ cause.message ++
      "\x22 \x7d)"))

/-- The terminals that have no way to edit a line. -/
def plainTerminals : List String :=
  ["dumb", "cons25", "emacs"]

/-- The editor writes its prompt: somebody types the input, or the terminal has no way to edit a
line. -/
def showsPrompt (typed : Bool) (terminal : Option String) : Bool :=
  typed || terminal.any fun name =>
    plainTerminals.any fun plain => Text.sameLetters name.toList plain.toList

/-- Goes through lines until one says to stop, and shows a prompt before each of them and at their
end. -/
def forPrompted {m : Type → Type} [Monad m] {σ α : Type} (showPrompt : m Unit)
    (step : σ → α → m (Continue σ)) (state : σ) : List α → m (Continue σ)
  | [] => do
    showPrompt
    return .next state
  | line :: rest => do
    showPrompt
    match ← step state line with
    | .next state' => forPrompted showPrompt step state' rest
    | .stop state' => return .stop state'

/-! ## Histories -/

/-- The remembered lines, from the first to the last. -/
structure History where
  entries : List String := []
  /-- A line has come in since the history was read. -/
  changed : Bool := false
deriving DecidableEq

namespace History

/-- The number of lines that are remembered. -/
def limit : Nat :=
  100

/-- The first line of a history file. -/
def mark : String :=
  "#V2"

/-- Remembers a line, unless it is empty or the same as the last one. -/
def add (h : History) (line : String) : History :=
  if line.isEmpty || h.entries.getLast? == some line then h
  else
    let kept := if limit ≤ h.entries.length then h.entries.tail else h.entries
    { entries := kept ++ [line], changed := true }

/-- An entry as it stands on a line of a history file. -/
def escape (line : String) : String :=
  String.ofList (line.toList.flatMap fun c =>
    if c = '\\' then ['\\', '\\'] else if c = '\n' then ['\\', 'n'] else [c])

/-- The characters of the entry that stands on a line, if every backslash escapes something. -/
def unescape? : List Char → Option (List Char)
  | [] => some []
  | '\\' :: 'n' :: cs => (unescape? cs).map ('\n' :: ·)
  | '\\' :: '\\' :: cs => (unescape? cs).map ('\\' :: ·)
  | '\\' :: _ => none
  | c :: cs => (unescape? cs).map (c :: ·)

/-- The entry that stands on a line; the line itself if it is not well escaped. -/
def unescape (line : String) : String :=
  (unescape? line.toList).elim line String.ofList

/-- Remembers the lines of a history file behind the first one. -/
def addLines (marked : Bool) (h : History) : List (Except AccessError String) → History
  | [] => { h with changed := false }
  | .error _ :: _ => h
  | .ok line :: rest => addLines marked (h.add (if marked then unescape line else line)) rest

/-- Reads a history file.  A line that is not text ends it, and what was read before that line
counts as come in since. -/
def ofLines : List (Except AccessError String) → History
  | [] => {}
  | .error _ :: _ => {}
  | .ok first :: rest =>
    if first = mark then addLines true {} rest else addLines false (History.add {} first) rest

/-- The text of a history file. -/
def toText (h : History) : String :=
  String.join ((mark :: h.entries.map escape).map (· ++ "\n"))

end History

/-! ## Editors -/

/-- What an editor keeps. -/
structure Editor where
  /-- The history that was taken from a file. -/
  loaded : History := {}
  /-- The lines that have been offered since, from the first to the last. -/
  offered : List String := []
deriving DecidableEq

namespace Editor

/-- The history of the editor. -/
def history (ed : Editor) : History :=
  ed.offered.foldl History.add ed.loaded

/-- The editor with the history of a file. -/
def load (ed : Editor) (bytes : ByteArray) : Editor :=
  { ed with loaded := History.ofLines (textLines bytes) }

/-- What comes of taking the history from a file: all its lines have to be text. -/
def loaded? (bytes : ByteArray) : Except AccessError Unit := do
  let _ ← (textLines bytes).mapM id
  return ()

/-- The editor when it has been offered a line. -/
def offer (ed : Editor) (line : String) : Editor :=
  { ed with offered := ed.offered ++ [line] }

end Editor

end SelectAlgebra
