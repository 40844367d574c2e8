/-
# Command.World — a small world of files

Commands run in a directory whose files are known by name. A path is followed from
there part by part: an empty part and a single dot stay, two dots go up, and a name
leads to a file, to a directory or to a vacant place.
-/
import Faultline.Log

namespace Faultline.Command

inductive FileError where
  | absent
  | isDirectory
  | notDirectory
  | nameTooLong
  /-- The path holds a character that no path can hold. -/
  | invalidPath
  /-- Anything else, in the words of the system. -/
  | other (text : String)
  deriving DecidableEq, Inhabited

def FileError.text : FileError → String
  | .absent => "no such file or directory"
  | .isDirectory => "is a directory"
  | .notDirectory => "not a directory"
  | .nameTooLong => "file name too long"
  | .invalidPath => "invalid argument"
  | .other s => s

/-- Where a path leads. Places in the known directory are given by the names on the way. -/
inductive Place where
  | directory (names : List String)
  | file (names : List String)
  | vacant (names : List String)
  | outside
  /-- A place in a directory outside. -/
  | unknown
  deriving DecidableEq, Inhabited

/-- Files by name, below one directory, and what was printed. -/
structure World where
  files : List (String × String) := []
  stdout : String := ""
  stderr : String := ""
  log : List LogEntry := []
  deriving Inhabited

namespace World

def nameLimit : Nat := 255

/-- One more than the most bytes in a path. -/
def pathLimit : Nat := 4096

def namesOf (file : String) : List String :=
  (file.splitOn "/").filter fun p => p != "" && p != "."

def isDirectory (w : World) (names : List String) : Bool :=
  names.isEmpty || w.files.any fun f => names.isPrefixOf (namesOf f.1) && names != namesOf f.1

def textAt? (w : World) (names : List String) : Option String :=
  (w.files.find? fun f => namesOf f.1 == names).map (·.2)

def placeAt (w : World) (names : List String) : Place :=
  if w.isDirectory names then .directory names
  else if (w.textAt? names).isSome then .file names
  else .vacant names

/-- One part of a path on from a place. -/
def enter (w : World) (here : Place) (part : String) : Except FileError Place :=
  match here with
  | .file _ => .error .notDirectory
  | .vacant _ | .unknown => .error .absent
  | .outside =>
    if part == "" || part == "." || part == ".." then .ok .outside
    else if part.utf8ByteSize > nameLimit then .error .nameTooLong
    else .ok .unknown
  | .directory names =>
    if part == "" || part == "." then .ok here
    else if part == ".." then .ok (if names.isEmpty then .outside else .directory names.dropLast)
    else if part.utf8ByteSize > nameLimit then .error .nameTooLong
    else .ok (w.placeAt (names ++ [part]))

/-- The parts of a path, and the place it starts from. -/
def start (path : String) : Except FileError (Place × List String) :=
  if path.contains (Char.ofNat 0) then .error .invalidPath
  else if path.isEmpty then .error .absent
  else if path.utf8ByteSize ≥ pathLimit then .error .nameTooLong
  else .ok (if path.startsWith "/" then .outside else .directory [], path.splitOn "/")

def read (w : World) (path : String) : Except FileError String := do
  let (from', parts) ← start path
  match ← parts.foldlM w.enter from' with
  | .file names => pure ((w.textAt? names).getD "")
  | .directory _ | .outside => throw .isDirectory
  | .vacant _ | .unknown => throw .absent

/-- Writes a file, a new one if there is none at the end of the path. A path that ends in a slash
or in dots means a directory. -/
def write (w : World) (path text : String) : Except FileError World := do
  let (from', parts) ← start path
  let last := (parts.filter (· != "")).getLast?.getD "."
  let isName := last != "." && last != ".."
  let before := if isName then (parts.reverse.dropWhile (· == "")).tail.reverse else parts
  let parent ← before.foldlM w.enter from'
  let parent ← w.enter parent "."
  if !isName || path.endsWith "/" then throw .isDirectory
  match ← w.enter parent last with
  | .directory _ | .outside => throw .isDirectory
  | .unknown => throw .absent
  | .file names | .vacant names =>
    pure { w with files := w.files.filter (fun f => namesOf f.1 != names)
      ++ [("/".intercalate names, text)] }

end World

end Faultline.Command
