import ScriptKit.FileTree
import ScriptKit.Text.Uri

/-!
# Workspaces

A workspace is a directory with scripts in it. The system lists the scripts in an order of its own.
-/

set_option autoImplicit false

namespace ScriptKit.Editor

/-- Why the text of a document is not to be had. -/
inductive DocumentError where
  /-- There is no file to be read. -/
  | unreadable (error : FileError)
  /-- The path of the document holds a null character. -/
  | nullInPath
  /-- The file is no well-formed UTF-8. -/
  | undecodable
deriving DecidableEq, Repr

/-- The files of the workspace and the identifier of their directory. -/
structure Workspace where
  uri : String
  tree : FileTree

namespace Workspace

/-- The text of the file to which a path leads from a place. -/
def readText (workspace : Workspace) (place : FileTree.Place) (path : String) :
    Except DocumentError String :=
  match workspace.tree.readFrom place path with
  | .error error => .error (.unreadable error)
  | .ok bytes =>
    match Text.ofFileBytes? bytes with
    | none => .error .undecodable
    | some text => .ok text

/-- The identifier of a file by its path in the workspace. -/
def uriOf (workspace : Workspace) (path : String) : String :=
  workspace.uri ++ "/" ++ Text.percentEncode path

/-- The paths of the scripts in the workspace. -/
def scripts (workspace : Workspace) : List String :=
  workspace.tree.paths.filter (·.endsWith ".ql")

/-- The scripts of a workspace as the system lists them. Nothing is known about the order, and it
may be another one each time. -/
structure Listing (workspace : Workspace) where
  paths : List String
  perm : paths.Perm workspace.scripts

end Workspace

end ScriptKit.Editor
