/-
# Loading settings

Settings are put together from the defaults, the file of the user, the file of the
project and a file given by name. A file is laid over what there is: what it does not
mention stays. All that does not fit is reported, with lines.
-/
import ModelGraph.Settings.Basic
import ModelGraph.Settings.Yaml
import ModelGraph.Workspace.Basic

namespace ModelGraph

inductive SettingsFault where
  | unknownField (line : Nat) (name owner : String)
  | repeatedField (line : Nat) (name owner : String)
  | repeatedKey (line : Nat) (name : String) (first : Nat)
  | mismatch (line : Nat) (tag : YamlTag) (text target : String)
  deriving Repr, BEq, DecidableEq, Inhabited

namespace SettingsFault

/-- The characters that fit in so many bytes. For each byte that is left over of a character
that does not fit stands the character for what cannot be shown. -/
def cut : (bytes : Nat) → List Char → List Char
  | _, [] => []
  | n, c :: cs =>
    if c.utf8Size ≤ n then c :: cut (n - c.utf8Size) cs else List.replicate n '\ufffd'

def shown (text : String) : String :=
  let body := if 10 < text.utf8ByteSize then String.ofList (cut 7 text.toList) ++ "..." else text
  " \x60" ++ body ++ "\x60"

/-- The fault in words. Lists and mappings show no text. -/
def message : SettingsFault → String
  | unknownField line name owner => s!"line {line}: field {name} not found in type {owner}"
  | repeatedField line name owner => s!"line {line}: field {name} already set in type {owner}"
  | repeatedKey line name first =>
    s!"line {line}: mapping key " ++ quoted name ++ s!" already defined at line {first}"
  | mismatch line tag text target =>
    let what := if tag = .sequence || tag = .mapping then text else shown text
    s!"line {line}: cannot unmarshal " ++ tag.mark ++ what ++ " into " ++ target

end SettingsFault

namespace Yaml

def target : Yaml → Except String Yaml
  | reference _ name none => .error ("anchor '" ++ name ++ "' value contains itself")
  | reference _ _ (some y) => .ok y
  | y => .ok y

def text : Yaml → String
  | scalar _ _ text => text
  | reference _ name _ => name
  | _ => ""

def tag : Yaml → YamlTag
  | scalar _ t _ => t
  | sequence _ t _ => t
  | mapping _ t _ => t
  | reference _ _ _ => .null

def sameKey : Yaml → Yaml → Bool
  | scalar _ _ a, scalar _ _ b => a = b
  | sequence .., sequence .. => true
  | mapping .., mapping .. => true
  | reference _ a _, reference _ b _ => a = b
  | _, _ => false

def repeatedKeys : List (Yaml × Yaml) → List SettingsFault
  | [] => []
  | (k, _) :: rest =>
    (rest.filter fun m => sameKey k m.1).map (fun m => .repeatedKey m.1.line m.1.text k.line) ++
      repeatedKeys rest

/-- What is wrong with a part of a file that does not fit its target. Keys that are there
twice are told before that. -/
def unfit (target : String) (y : Yaml) : List SettingsFault :=
  let faults := match y with
    | mapping _ _ members => repeatedKeys members
    | _ => []
  if faults.isEmpty then [.mismatch y.line y.tag y.text target] else faults

/-- Whether a key says that the members of its value belong to the mapping too. -/
def isMerge : Yaml → Bool
  | scalar _ t text => t = .merge && text = "<<"
  | _ => false

/-- The members of a mapping, or why there are none. -/
abbrev Layer : Type := Except String (List (Yaml × Yaml))

def noMapping : Layer := .error "map merge requires map or sequence of maps as the value"

mutual

def mergedLayers : Yaml → List Layer
  | mapping _ _ members => .ok members :: innerLayers members
  | reference _ _ (some (mapping _ _ members)) => .ok members :: innerLayers members
  | reference _ name none => [.error ("anchor '" ++ name ++ "' value contains itself")]
  | sequence _ _ items => itemLayers items
  | _ => [noMapping]

def itemLayers : List Yaml → List Layer
  | [] => []
  | sequence .. :: _ => [noMapping]
  | y :: ys => mergedLayers y ++ itemLayers ys

/-- The mappings that are merged with the one that has these members. With repeated keys
there are none. -/
def innerLayers : List (Yaml × Yaml) → List Layer
  | [] => []
  | (k, v) :: rest =>
    if !(repeatedKeys ((k, v) :: rest)).isEmpty then []
    else if isMerge k then mergedLayers v
    else innerLayers rest

end

end Yaml

/-- How a part of a file changes settings: what they become, and what does not fit. A part
that cannot be read at all ends the reading. -/
abbrev SettingsStep : Type := Yaml → Settings → Except String (Settings × List SettingsFault)

namespace Settings

def truthField (put : Bool → Settings → Settings) : SettingsStep := fun y s => do
  match ← y.target with
  | .scalar n tag text =>
    match ← Scalar.readAs tag text with
    | .null => return (s, [])
    | .boolean => return (put ((Scalar.truths.lookup text).getD false) s, [])
    | .text =>
      match Scalar.truthWords.lookup text with
      | some b => return (put b s, [])
      | none => return (s, [.mismatch n tag text "bool"])
    | _ => return (s, [.mismatch n tag text "bool"])
  | y => return (s, y.unfit "bool")

/-- The text of a part, if it is not nothing, and what does not fit; any scalar will do. -/
def textOf (y : Yaml) : Except String (Option String × List SettingsFault) := do
  match ← y.target with
  | .scalar _ tag text => return (if (← Scalar.readAs tag text) = .null then none else some text, [])
  | y => return (none, y.unfit "string")

def textField (put : String → Settings → Settings) : SettingsStep := fun y s => do
  let (text, faults) ← textOf y
  return ((text.map fun t => put t s).getD s, faults)

def listField (put : List String → Settings → Settings) : SettingsStep := fun y s => do
  match ← y.target with
  | .scalar n tag text =>
    if (← Scalar.readAs tag text) = .null then return (put [] s, [])
    else return (s, [.mismatch n tag text "[]string"])
  | .sequence _ _ items =>
    let texts ← items.mapM textOf
    return (put (texts.filterMap Prod.fst) s, texts.flatMap Prod.snd)
  | y => return (s, y.unfit "[]string")

/-- What has come of the members of a mapping so far. -/
structure Laid where
  settings : Settings
  faults : List SettingsFault := []
  names : List String := []

/-- A member of a mapping. A name must not come twice in the mapping itself; in those that
are merged with it, names that have been there do not count. -/
def layMember (owner : String) (fields : List (String × SettingsStep)) (isOwn : Bool) (l : Laid)
    (m : Yaml × Yaml) : Except String Laid := do
  if m.1.isMerge then return l
  match ← textOf m.1 with
  | (none, faults) => return { l with faults := l.faults ++ faults }
  | (some name, _) =>
    let wasThere := l.names.contains name
    let names := name :: l.names
    if wasThere && !isOwn then return l
    match fields.lookup name with
    | none =>
      return { l with faults := l.faults ++ [.unknownField m.1.line name owner], names }
    | some step =>
      if wasThere then
        return { l with faults := l.faults ++ [.repeatedField m.1.line name owner] }
      let (settings, faults) ← step m.2 l.settings
      return { settings, faults := l.faults ++ faults, names }

/-- The members of a mapping. Of one with repeated keys only these are told. -/
def layMembers (owner : String) (fields : List (String × SettingsStep)) (isOwn : Bool) (l : Laid)
    (members : List (Yaml × Yaml)) : Except String Laid :=
  match Yaml.repeatedKeys members with
  | [] => members.foldlM (layMember owner fields isOwn) l
  | faults => .ok { l with faults := l.faults ++ faults }

def recordField (owner : String) (fields : List (String × SettingsStep)) : SettingsStep :=
  fun y s => do
    match ← y.target with
    | .scalar n tag text =>
      if (← Scalar.readAs tag text) = .null then return (s, [])
      else return (s, [.mismatch n tag text owner])
    | .mapping _ _ members =>
      let l ← layMembers owner fields true { settings := s } members
      let l ← (Yaml.innerLayers members).foldlM
        (fun l layer => do layMembers owner fields false l (← layer)) l
      return (l.settings, l.faults)
    | y => return (s, y.unfit owner)

def fileField : SettingsStep :=
  recordField "config.Config"
    [("compiler", recordField "config.CompilerConfig"
      [("strictFunctionMatching", truthField fun v s => { s with strict := v }),
       ("rejectGeneralizationCycles", truthField fun v s => { s with cycles := v }),
       ("validateMappingRoots", truthField fun v s => { s with roots := v }),
       ("extensions", listField fun v s => { s with extensions := v })]),
     ("logging", recordField "config.LoggingConfig"
      [("level", textField fun v s => { s with level := v }),
       ("format", textField fun v s => { s with format := v })]),
     ("metrics", recordField "config.MetricsConfig"
      [("file", textField fun v s => { s with metricsFile := v })])]

def apply (s : Settings) (path text : String) : Except String Settings :=
  let failed (why : String) := Except.error ("failed to parse config file " ++ path ++ ": " ++ why)
  match Yaml.read text with
  | .error f => failed f.message
  | .ok none => .ok s
  | .ok (some y) =>
    match fileField y s with
    | .error why => failed ("yaml: " ++ why)
    | .ok (s, []) => .ok s
    | .ok (_, faults) =>
      failed ("yaml: unmarshal errors:" ++ String.join (faults.map fun f => "\n  " ++ f.message))

def applyFile (w : Workspace) (s : Settings) (path : String) : Except String Settings :=
  match w.read path with
  | .error f => .error ("failed to read config file: " ++ f.message path)
  | .ok text => s.apply path text

def projectFile : String := "purec.yaml"

def userFile (w : Workspace) : String :=
  joinPath (cleanPath w.home) ".config/purec/config.yaml"

def applyUser (w : Workspace) (s : Settings) : Except String Settings :=
  match w.read (userFile w) with
  | .error .missing => .ok s
  | _ => applyFile w s (userFile w)

def folders (names : List String) : List String :=
  ((List.range (names.length + 1)).map fun n => "/" ++ "/".intercalate (names.take n)).reverse

/-- The paths where the file of the project may be: in the folder at hand and in those
around it, the innermost first. -/
def projectFiles (w : Workspace) : List String :=
  (folders (cleanNames w.directory)).map fun f => joinPath f projectFile

def projectFile? (w : Workspace) : Option String := (projectFiles w).find? w.contains

/-- Settings from the defaults and all files. `given` names one more file; none if it is
empty. -/
def load (w : Workspace) (given : String) : Except String Settings := do
  let s ← applyUser w {}
  let s ← match projectFile? w with
    | some path => applyFile w s path
    | none => .ok s
  let s ← if given = "" then .ok s else applyFile w s given
  s.validate

end Settings
end ModelGraph
