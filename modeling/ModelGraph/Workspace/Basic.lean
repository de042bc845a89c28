/-
# Files to work on

A workspace holds files under one root, by the names that lead to them, and knows the
home folder and the folder that relative paths start from.
-/
import ModelGraph.Text.Path

namespace ModelGraph

structure Workspace where
  home : String
  directory : String
  files : List (List String × String) := []
  deriving Repr, BEq, Inhabited

inductive FileFault where
  | missing | notFolder | isFolder
  deriving Repr, BEq, DecidableEq, Inhabited

def FileFault.message (path : String) : FileFault → String
  | missing => "open " ++ path ++ ": no such file or directory"
  | notFolder => "open " ++ path ++ ": not a directory"
  | isFolder => "read " ++ path ++ ": is a directory"

def pathNames (path : String) : List String := path.splitOn "/"

def isAbsolute (path : String) : Bool := path.toList.head? = some '/'

/-- Takes a name of a path: nothing and a dot stay in place, two dots go back. Where there
is nothing to go back to, two dots are dropped under a root and kept elsewhere. `done`
are the names before, newest first. -/
def stepName (rooted : Bool) (done : List String) (name : String) : List String :=
  if name = "" || name = "." then done
  else if name = ".." then
    match done with
    | [] => if rooted then [] else [".."]
    | ".." :: rest => ".." :: ".." :: rest
    | _ :: rest => rest
  else name :: done

def cleanNames (path : String) : List String :=
  ((pathNames path).foldl (stepName (isAbsolute path)) []).reverse

def cleanPath (path : String) : String :=
  let inner := "/".intercalate (cleanNames path)
  if isAbsolute path then "/" ++ inner else if inner = "" then "." else inner

def joinPath (folder path : String) : String :=
  if folder = "." then path else if folder = "/" then "/" ++ path else folder ++ "/" ++ path

namespace Workspace

def locate (w : Workspace) (path : String) : List String :=
  cleanNames (if isAbsolute path then path else w.directory ++ "/" ++ path)

def file? (w : Workspace) (place : List String) : Option String := w.files.lookup place

def isFolder (w : Workspace) (place : List String) : Bool :=
  place.isPrefixOf (cleanNames w.home) || place.isPrefixOf (cleanNames w.directory) ||
    w.files.any fun f => f.1 != place && place.isPrefixOf f.1

def isBlocked (w : Workspace) (place : List String) : Bool :=
  w.files.any fun f => f.1 != place && f.1.isPrefixOf place

def read (w : Workspace) (path : String) : Except FileFault String :=
  let place := w.locate path
  let asFolder := (pathNames path).getLast? = some ""
  if path = "" then .error .missing
  else match w.file? place with
    | some text => if asFolder then .error .notFolder else .ok text
    | none =>
      if w.isFolder place then .error .isFolder
      else if w.isBlocked place then .error .notFolder
      else .error .missing

def contains (w : Workspace) (path : String) : Bool :=
  let place := w.locate path
  (w.file? place).isSome || w.isFolder place

/-- What a place is called inside a folder, and whether that is a folder again. -/
def entryIn (folder : List String) (isFolder : Bool) (place : List String) :
    Option (String × Bool) :=
  if folder.isPrefixOf place then
    match place.drop folder.length with
    | [] => none
    | [name] => some (name, isFolder)
    | name :: _ => some (name, true)
  else none

def entries (w : Workspace) (folder : List String) : List (String × Bool) :=
  distinct (w.files.filterMap (fun f => entryIn folder false f.1) ++
    [cleanNames w.home, cleanNames w.directory].filterMap (entryIn folder true))

def depth (w : Workspace) : Nat := (w.files.map fun f => f.1.length).foldl max 0

end Workspace
end ModelGraph
