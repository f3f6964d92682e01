/-!
# Paths and folders

Where the text of a script comes from: a path is cleaned up for display, and followed through the
files of a folder. Outside the folder nothing is known but the directories on the way up from it.
-/

namespace LoxInterpreter

/-- Why a file cannot be read. -/
inductive ReadError where
  | noSuchFile
  | isDirectory
  | notDirectory
  | other (text : String)
  deriving DecidableEq, Repr

/-- The wording of a read error. -/
def ReadError.message : ReadError → String
  | noSuchFile => "No such file or directory"
  | isDirectory => "Is a directory"
  | notDirectory => "Not a directory"
  | other text => text

namespace Path

/-- The parts between slashes. -/
def split (path : List Char) : List (List Char) :=
  path.foldr (fun c parts =>
    if c = '/' then [] :: parts
    else match parts with
      | part :: rest => (c :: part) :: rest
      | [] => [[c]]) [[]]

/-- The parts that lead anywhere: empty ones and single dots do not. -/
def steps (path : String) : List String :=
  ((split path.toList).filter fun part => part ≠ [] ∧ part ≠ ['.']).map String.ofList

/-- The slashes that a path begins with, as far as they mean something: exactly two stay two, and
more count as one. -/
def root (path : String) : String :=
  match path.toList with
  | '/' :: '/' :: '/' :: _ => "/"
  | '/' :: '/' :: _ => "//"
  | '/' :: _ => "/"
  | _ => ""

/-- A path without detours. The empty path is the folder itself. -/
def display (path : String) : String :=
  let shown := root path ++ "/".intercalate (steps path)
  if shown.isEmpty then "." else shown

end Path

/-- What stands under a name in a folder. -/
inductive Entry where
  | file (content : ByteArray)
  | folder

/-- The entries of a folder by their steps. A folder that only the name of another entry mentions
is there too. -/
structure Folder where
  entries : List (List String × Entry)

namespace Folder

/-- A folder from the names of its entries. -/
def ofNames (entries : List (String × Entry)) : Folder :=
  ⟨entries.map fun (name, entry) => (Path.steps name, entry)⟩

/-- What stands at the end of some steps. -/
def entry? (f : Folder) (steps : List String) : Option Entry :=
  if steps.isEmpty then some .folder
  else
    match f.entries.find? fun e => e.1 = steps with
    | some e => some e.2
    | none => if f.entries.any fun e => steps.isPrefixOf e.1 then some .folder else none

/-- Follow steps on the way up from the folder. -/
def followOutside : List String → Except ReadError Entry
  | [] => .ok .folder
  | step :: rest => if step = ".." then followOutside rest else .error .noSuchFile

/-- Follow steps from a place in the folder. Every place before the last has to be a folder. -/
def follow (f : Folder) : List String → List String → Except ReadError Entry
  | here, [] =>
    match f.entry? here with
    | some entry => .ok entry
    | none => .error .noSuchFile
  | here, step :: rest =>
    match f.entry? here with
    | some .folder =>
      if step ≠ ".." then f.follow (here ++ [step]) rest
      else if here.isEmpty then followOutside rest
      else f.follow here.dropLast rest
    | some (.file _) => .error .notDirectory
    | none => .error .noSuchFile

/-- What a path leads to. -/
def resolve (f : Folder) (path : String) : Except ReadError Entry :=
  if Path.root path = "" then f.follow [] (Path.steps path) else followOutside (Path.steps path)

/-- The bytes of the file that a path leads to. -/
def read (f : Folder) (path : String) : Except ReadError ByteArray :=
  match f.resolve path with
  | .ok (.file content) => .ok content
  | .ok .folder => .error .isDirectory
  | .error e => .error e

end Folder

end LoxInterpreter
