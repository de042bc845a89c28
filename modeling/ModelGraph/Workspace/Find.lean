/-
# Files by pattern

A pattern for paths is a row of patterns for names; `**` as a whole name stands for any
number of folders. The last name of the row is looked for in the folders that the names
before it lead to. Alternatives in braces may hold several names, so they are tried one
by one.
-/
import ModelGraph.Text.Quote
import ModelGraph.Workspace.Basic
import ModelGraph.Workspace.Glob

namespace ModelGraph
namespace Workspace

/-- Whether a path inside a folder is written without detours. -/
def isInner (path : String) : Bool :=
  path = "." || (pathNames path).all fun n => n != "" && n != "." && n != ".."

def entriesAt (w : Workspace) (base folder : String) : List (String × Bool) :=
  let place := w.locate (joinPath base folder)
  if isInner folder && w.isFolder place then w.entries place else []

def isFolderAt (w : Workspace) (base folder : String) : Bool :=
  isInner folder && w.isFolder (w.locate (joinPath base folder))

def isFileAt (w : Workspace) (base path : String) : Bool :=
  isInner path && (w.file? (w.locate (joinPath base path))).isSome

def withoutFinalSlash (path : List Char) : List Char :=
  if path.length > 1 && path.getLast? = some '/' then path.dropLast else path

/-- All that is inside a folder, through at most `depth` folders: the files, or else the
folders. -/
def walk (w : Workspace) (base : String) (files : Bool) : (depth : Nat) → String → List String
  | 0, _ => []
  | depth + 1, folder =>
    (w.entriesAt base folder).flatMap fun (name, isFolder) =>
      let path := joinPath folder name
      if isFolder then (if files then [] else [path]) ++ w.walk base files depth path
      else if files then [path] else []

def findIn (w : Workspace) (base : String) (files : Bool) (name : List Char) (folder : String) :
    Except Glob.Fault (List String) :=
  if name.isEmpty then
    .ok (if !files && w.isFolderAt base folder then [folder] else [])
  else if name = ['*', '*'] then
    .ok ((if !files && w.isFolderAt base folder then [folder] else []) ++
      w.walk base files (w.depth + 1) folder)
  else do
    let found ← (w.entriesAt base folder).filterM fun entry => do
      return (← Glob.fits name entry.1) && entry.2 != files
    return found.map fun entry => joinPath folder entry.1

/-- The files inside `base` whose paths fit a pattern, or else the folders. Each step
takes off a name or a pair of braces, so the fuel is the length of the pattern. -/
def find (w : Workspace) (base : String) : (fuel : Nat) → (files : Bool) → List Char →
    Except Glob.Fault (List String)
  | 0, _, _ => .ok []
  | fuel + 1, files, pattern =>
    if (Glob.firstMeta? 0 pattern).isNone then
      let path := String.ofList (withoutFinalSlash (Glob.unescape pattern))
      .ok (if w.isFileAt base path || (!files && w.isFolderAt base path) then [path] else [])
    else
      match Glob.cut pattern with
      | .names none _ name => w.findIn base files name "."
      | .names (some folder) true name =>
        w.findIn base files name (String.ofList (Glob.unescape folder))
      | .names (some folder) false name => do
        let folders ← w.find base fuel false folder
        return (← folders.mapM (w.findIn base files name)).flatten
      | .braces start stop => do
        let before := pattern.take start
        let inside := (pattern.take stop).drop (start + 1)
        let after := pattern.drop (stop + 1)
        let (folders, lead) ←
          match Glob.last? (fun c => c = '/' || c = '}') before with
          | some k =>
            if before[k]? = some '/' then do
              let folders ← w.find base fuel false (before.take k)
              pure (folders.map fun f => f.toList ++ ['/'], before.drop (k + 1))
            else pure ([[]], before)
          | none => pure ([[]], before)
        let found ← folders.mapM fun folder => (Glob.listed inside).mapM fun choice =>
          w.find base fuel files (folder ++ lead ++ choice ++ after)
        return found.flatten.flatten

/-- The files that fit a pattern, sorted. A pattern that leads back to a folder by dots
alone stands for that folder. -/
def matching (w : Workspace) (pattern : String) : Except Glob.Fault (List String) := do
  let pattern := cleanPath pattern
  let (base, inside) := Glob.split pattern
  if !Glob.isValid (String.ofList inside) then throw .malformed
  if [[], ['.'], ['.', '.']].contains inside then
    return if w.contains pattern then [pattern] else []
  let found ← w.find base (2 * inside.length + 2) true inside
  return (found.map fun path => cleanPath (joinPath base path)).mergeSort fun a b => a ≤ b

/-- The files that arguments stand for, each once. A plain path stands for itself, a
pattern for what fits it, of which there has to be something. -/
def expand (w : Workspace) (args : List String) : Except String (List String) := do
  let files ← args.mapM fun arg =>
    if !Glob.isPattern arg then .ok [arg]
    else if !Glob.isValid arg then .error ("invalid pattern " ++ quoted arg)
    else match w.matching arg with
      | .error fault => .error ("glob error: " ++ fault.message)
      | .ok [] => .error ("no files match pattern: " ++ arg)
      | .ok found => .ok found
  return distinct files.flatten

end Workspace
end ModelGraph
