/-
Finding and reading files.

A path is walked one component at a time from the working directory.  Whatever stands before a
component has to be a directory, also before an empty one, so a file is not found under a path that
ends with a slash.  Of the directories above the working directory nothing is known but that
they are directories; from the root on, there is what every system has.
-/

namespace ChipEight

/-- Why a file cannot be read. -/
inductive FileError
  | notFound
  | isDirectory
  | notDirectory
  | nameTooLong
  | permissionDenied
  deriving DecidableEq, Repr

def FileError.message : FileError → String
  | notFound => "No such file or directory"
  | isDirectory => "Is a directory"
  | notDirectory => "Not a directory"
  | nameTooLong => "File name too long"
  | permissionDenied => "Permission denied"

inductive FileNode
  | file (content : Array UInt8)
  | directory
  deriving DecidableEq, Repr

/-- The components of a path. -/
def pathComponents (path : String) : List String := path.splitOn "/"

/-- What is in the working directory, each entry with the names that lead to it. -/
structure Files where
  entries : List (List String × FileNode)
  deriving DecidableEq, Repr

/-- Where a walk has come to. -/
inductive Place
  | within (names : List String)
  /-- somewhere above the working directory -/
  | above
  /-- what names lead to from the root -/
  | system (names : List String)
  deriving DecidableEq, Repr

namespace Place

def child (name : String) : Place → Place
  | within names => within (names ++ [name])
  | above => above
  | system names => system (names ++ [name])

def parent : Place → Place
  | within [] => above
  | within names => within names.dropLast
  | above => above
  | system names => system names.dropLast

end Place

/-- What every system has from its root on. -/
def systemEntries : List (List String × FileNode) :=
  [([], .directory), (["dev"], .directory), (["dev", "null"], .file #[]), (["etc"], .directory),
   (["tmp"], .directory), (["usr"], .directory)]

namespace Files

/-- The longest name of a file, in bytes. -/
def longestName : Nat := 255

/-- The longest path, in bytes. -/
def longestPath : Nat := 4095

/-- What stands at a place. -/
def entry? (fs : Files) : Place → Option FileNode
  | .above => some .directory
  | .within [] => some .directory
  | .within names => fs.entries.lookup names
  | .system names => systemEntries.lookup names

/-! ### Making files -/

/-- Put something at a place, over what stood there. -/
def put (node : FileNode) (fs : Files) : Place → Files
  | .within names => ⟨(names, node) :: fs.entries⟩
  | .above | .system _ => fs

/-- Go from one place to the next, and make a directory where nothing is. -/
def enter (at_ : Files × Place) (name : String) : Files × Place :=
  let (fs, place) := at_
  if name = "" ∨ name = "." then (fs, place)
  else if name = ".." then (fs, place.parent)
  else
    let child := place.child name
    (if (fs.entry? child).isNone then fs.put .directory child else fs, child)

/-- Make a file or a directory, and the directories on the way to it. -/
def make (fs : Files) (path : String) : FileNode → Files
  | .directory => ((pathComponents path).foldl enter (fs, .within [])).1
  | .file content =>
    let components := pathComponents path
    let (fs, place) := components.dropLast.foldl enter (fs, .within [])
    fs.put (.file content) (place.child (components.getLast?.getD ""))

/-- Files given by their paths, made in order. -/
def ofList (files : List (String × FileNode)) : Files :=
  files.foldl (fun fs f => fs.make f.1 f.2) ⟨[]⟩

/-! ### Finding files -/

/-- Go from one place to the next. -/
def step (fs : Files) (place : Place) (name : String) : Except FileError Place :=
  if fs.entry? place ≠ some .directory then .error .notDirectory
  else if name = "" ∨ name = "." then .ok place
  else if name = ".." then .ok place.parent
  else if longestName < name.utf8ByteSize then .error .nameTooLong
  else if place = .above ∨ (fs.entry? (place.child name)).isNone then .error .notFound
  else .ok (place.child name)

/-- The place that a path leads to. -/
def find (fs : Files) (path : String) : Except FileError Place :=
  if path = "" then .error .notFound
  else if longestPath < path.utf8ByteSize then .error .nameTooLong
  else
    let start := if (pathComponents path).head? = some "" then .system [] else .within []
    (pathComponents path).foldlM fs.step start

/-- The content of a file. -/
def read (fs : Files) (path : String) : Except FileError (Array UInt8) := do
  match fs.entry? (← fs.find path) with
  | some (.file content) => .ok content
  | some .directory => .error .isDirectory
  | none => .error .notFound

end Files

/-- A path without the parts of it that lead nowhere: doubled and trailing slashes, and
components that name the directory they stand in.  Two slashes in front, but not more, are
kept. -/
def tidyPath (path : String) : String :=
  let parts := (pathComponents path).filter fun c => c ≠ "" ∧ c ≠ "."
  let root := match pathComponents path with
    | "" :: "" :: "" :: _ :: _ => "/"
    | "" :: "" :: _ :: _ => "//"
    | "" :: _ :: _ => "/"
    | _ => ""
  if root ++ "/".intercalate parts = "" then "." else root ++ "/".intercalate parts

end ChipEight
