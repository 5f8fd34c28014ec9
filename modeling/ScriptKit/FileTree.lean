import ScriptKit.Text.Lines
import ScriptKit.Text.Quoted

/-!
# File trees

A file tree holds the files and directories below one directory. A path is followed name by name,
from that directory or from the root of all files; what cannot be read gives an error that says
why. Above the tree there are directories, and nothing is known of what else they hold.
-/

set_option autoImplicit false

namespace ScriptKit

/-- Why a file cannot be opened. -/
inductive FileError where
  /-- Nothing has the path. -/
  | missing
  /-- A directory has the path. -/
  | isDirectory
  /-- The path leads through a file as if it were a directory. -/
  | notDirectory
  /-- The path, or a name in it, is longer than the system takes. -/
  | tooLong
deriving DecidableEq, Repr

namespace FileError

/-- The name under which the error is reported. -/
def label : FileError → String
  | missing => "FileNotFoundError"
  | isDirectory => "IsADirectoryError"
  | notDirectory => "NotADirectoryError"
  | tooLong => "OSError"

/-- The number and the words that the system has for the error. -/
def text : FileError → String
  | missing => "[Errno 2] No such file or directory"
  | isDirectory => "[Errno 21] Is a directory"
  | notDirectory => "[Errno 20] Not a directory"
  | tooLong => "[Errno 36] File name too long"

/-- The line that is written to the error stream when a path cannot be opened. -/
def entry (error : FileError) (path : String) : String :=
  error.label ++ ": " ++ error.text ++ ": " ++ Text.quoted path ++ "\n"

end FileError

/-- The files below a directory, by the names on the way to each, and directories that may be
empty. -/
structure FileTree where
  files : List (List String × ByteArray)
  directories : List (List String)

namespace FileTree

/-- What stands at a place in a tree. -/
inductive Entry where
  | file (content : ByteArray)
  | directory

/-- A place to which a path leads: some way down the tree, or above the tree. -/
inductive Place where
  | above
  | within (way : List String)
deriving DecidableEq, Repr

/-- The directory that holds the place. The directory of the tree itself is held by one above the
tree, and so are all directories above it. -/
def Place.back : Place → Place
  | above => above
  | within [] => above
  | within way => within way.dropLast

/-- How many bytes a name may have. -/
def nameLimit : Nat := 255

/-- How many bytes a path must stay below. -/
def pathLimit : Nat := 4096

/-- What stands at a place. -/
def entryAt? (tree : FileTree) : Place → Option Entry
  | .above => some .directory
  | .within way =>
    match tree.files.lookup way with
    | some content => some (.file content)
    | none =>
      if way.isEmpty || tree.directories.any way.isPrefixOf ||
          tree.files.any fun (path, _) => way.isPrefixOf path then
        some .directory
      else none

/-- Follow names from a place. An empty name and `.` stay, and `..` goes back. -/
def follow (tree : FileTree) (place : Place) : List String → Except FileError Entry
  | [] =>
    match tree.entryAt? place with
    | some entry => .ok entry
    | none => .error .missing
  | name :: rest =>
    match tree.entryAt? place with
    | none => .error .missing
    | some (.file _) => .error .notDirectory
    | some .directory =>
      if name = "" ∨ name = "." then follow tree place rest
      else if name = ".." then follow tree place.back rest
      else if nameLimit < name.utf8ByteSize then .error .tooLong
      else
        match place with
        | .above => .error .missing
        | .within way => follow tree (.within (way ++ [name])) rest

/-- The content of the file to which a path leads from a place. An empty path leads nowhere, and a
path that begins with a separator leads down from the root of all files, which is above the tree. -/
def readFrom (tree : FileTree) (place : Place) (path : String) : Except FileError ByteArray :=
  if path.isEmpty then .error .missing
  else if pathLimit ≤ path.utf8ByteSize then .error .tooLong
  else
    match tree.follow (if path.startsWith "/" then .above else place) (path.splitOn "/") with
    | .ok (.file content) => .ok content
    | .ok .directory => .error .isDirectory
    | .error error => .error error

/-- The content of the file to which a path leads from the directory of the tree. -/
def read (tree : FileTree) (path : String) : Except FileError ByteArray :=
  tree.readFrom (.within []) path

/-- The paths of all files. -/
def paths (tree : FileTree) : List String := tree.files.map fun (way, _) => "/".intercalate way

end FileTree

end ScriptKit
