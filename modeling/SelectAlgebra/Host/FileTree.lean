import SelectAlgebra.Host

/-!
# File trees

Folders and files in memory, with a current folder from which relative paths start.  A path is
followed part by part, and only through folders that exist.  Some paths lead to devices in place of
files: to the input and the two places to write to, to a device that is always empty, and to one
that is always full.

Main results:

- Theorem `lookup_put`: writing changes what is at one location and nothing else.
-/

namespace SelectAlgebra

/-- The names of the folders from the root to an entry, and its own. -/
abbrev Location := List String

/-- Folders and files. -/
structure FileTree where
  /-- The folders besides the root. -/
  folders : List Location
  files : List (Location × ByteArray)
  /-- The folder from which relative paths start. -/
  current : Location

namespace FileTree

/-- There is a folder at the location. -/
def isFolder (t : FileTree) (l : Location) : Bool :=
  l.isEmpty || t.folders.contains l

/-- The bytes of the file at the location. -/
def file? (t : FileTree) (l : Location) : Option ByteArray :=
  t.files.lookup l

/-- The location to which the parts of a path lead. -/
def follow (t : FileTree) (start : Location) : List String → Except AccessError Location
  | [] => .ok start
  | part :: parts =>
    if t.isFolder start then
      if part = "" ∨ part = "." then t.follow start parts
      else if part = ".." then t.follow start.dropLast parts
      else if nameLimit < part.utf8ByteSize then .error .nameTooLong
      else t.follow (start ++ [part]) parts
    else if (t.file? start).isSome then .error .notFolder
    else .error .notFound

/-- The parts of a path between its slashes. -/
def parts (path : String) : List String :=
  (path.toList.splitOn '/').map String.ofList

/-- Refuses texts that are no paths. -/
def checkPath (path : String) : Except AccessError Unit :=
  if path.isEmpty then .error .notFound
  else if path.toList.contains '\x00' then .error .nulInName
  else if pathLimit ≤ path.utf8ByteSize then .error .nameTooLong
  else .ok ()

/-- The location from which a path is followed. -/
def startOf (t : FileTree) (path : String) : Location :=
  if isAbsolutePath path then [] else t.current

/-- The location of a path.  There need not be anything at it. -/
def locate (t : FileTree) (path : String) : Except AccessError Location := do
  checkPath path
  t.follow (t.startOf path) (parts path)

/-- The location of a path at which a file is to be made.  With a slash at its end a path cannot
lead to a file, whatever its last part is, so only the parts in front of that one are followed. -/
def locateTarget (t : FileTree) (path : String) : Except AccessError Location := do
  checkPath path
  if endsWithSlash path then
    let folders := ((parts path).filter fun part => !part.isEmpty).dropLast
    let _ ← t.follow (t.startOf path) (folders ++ ["."])
    .error .isFolder
  else t.follow (t.startOf path) (parts path)

/-- There is a file or a folder at the path. -/
def pathExists (t : FileTree) (path : String) : Bool :=
  match t.locate path with
  | .ok l => t.isFolder l || (t.file? l).isSome
  | .error _ => false

/-- The bytes of the file at the path. -/
def read (t : FileTree) (path : String) : Except AccessError ByteArray := do
  let l ← t.locate path
  if t.isFolder l then .error .isFolder
  else (t.file? l).elim (.error .notFound) .ok

/-- Puts bytes at a location, in place of those that are there. -/
def put (l : Location) (bytes : ByteArray) :
    List (Location × ByteArray) → List (Location × ByteArray)
  | [] => [(l, bytes)]
  | f :: fs => if f.1 = l then (l, bytes) :: fs else f :: put l bytes fs

/-- Bytes that were put at a location are found there, and nothing else changes. -/
theorem lookup_put (l k : Location) (bytes : ByteArray) (files : List (Location × ByteArray)) :
    (put l bytes files).lookup k = if k = l then some bytes else files.lookup k := by
  induction files with
  | nil =>
    by_cases h : k = l
    · simp [put, h]
    · simp [put, List.lookup_cons, h, beq_false_of_ne h]
  | cons f fs ih =>
    obtain ⟨m, content⟩ := f
    by_cases hm : m = l
    · subst hm
      by_cases h : k = m
      · simp [put, h]
      · simp [put, List.lookup_cons, h, beq_false_of_ne h]
    · by_cases h : k = m
      · subst h
        simp [put, hm]
      · simp [put, List.lookup_cons, hm, beq_false_of_ne h, ih]

/-- Writes a file. -/
def write (t : FileTree) (path : String) (bytes : ByteArray) : Except AccessError FileTree := do
  let l ← t.locateTarget path
  if t.isFolder l then .error .isFolder
  else .ok { t with files := put l bytes t.files }

end FileTree

/-! ## Devices -/

/-- What a path can lead to in place of a file with contents of its own. -/
inductive Device where
  /-- Holds nothing and takes everything. -/
  | empty
  /-- Takes nothing. -/
  | full
  | input
  | output
  | errors
deriving DecidableEq

namespace Device

/-- All devices. -/
def all : List Device :=
  [empty, full, input, output, errors]

/-- The location of a device. -/
def location : Device → Location
  | empty => ["dev", "null"]
  | full => ["dev", "full"]
  | input => ["dev", "stdin"]
  | output => ["dev", "stdout"]
  | errors => ["dev", "stderr"]

/-- The device that a path leads to, if the tree has something at the path. -/
def at? (t : FileTree) (path : String) : Option Device :=
  match t.locate path with
  | .error _ => none
  | .ok l => if (t.file? l).isSome then all.find? fun d => d.location = l else none

end Device

end SelectAlgebra
