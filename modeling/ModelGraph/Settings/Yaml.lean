/-
# Settings files

A settings file is a tree of mappings, lists and scalars. Nesting is shown by indentation
or by brackets. Every part knows the line that it stands on, and what it is: a tag may
tell that, else a plain scalar tells it by its text. A part may be given a name and be
used again by it.

Only the first document of a file is read. What follows it does not count.
-/
import ModelGraph.Settings.Scalar
import ModelGraph.Settings.Scan

namespace ModelGraph

inductive Yaml where
  | scalar (line : Nat) (tag : YamlTag) (text : String)
  | sequence (line : Nat) (tag : YamlTag) (items : List Yaml)
  | mapping (line : Nat) (tag : YamlTag) (members : List (Yaml × Yaml))
  /-- A part that has a name and is used again; none if the part contains this use. -/
  | reference (line : Nat) (name : String) (target : Option Yaml)
  deriving Repr, Inhabited

namespace Yaml

def line : Yaml → Nat
  | scalar n _ _ => n
  | sequence n _ _ => n
  | mapping n _ _ => n
  | reference n _ _ => n

/-- What is known while a document is read: the file, the tags by their handles, and the
parts that have names, the last one first. A part that is not complete is none. -/
structure Reader where
  scanner : Scanner
  handles : List (String × String) := []
  anchors : List (String × Option Yaml) := []

abbrev Reading : Type → Type := StateT Reader (Except YamlFault)

def scan (step : Scan α) : Reading α := do
  let r ← get
  let (a, scanner) ← (step.run r.scanner : Except YamlFault (α × Scanner))
  set { r with scanner }
  return a

def peek : Reading Token := scan Scanner.peek

def advance : Reading Unit := scan Scanner.advance

def misplaced (context : Mark) (t : Token) (text : String) : Reading α :=
  throw (.misplaced context t.start text)

def longStart : String := "tag:yaml.org,2002:"

def shortMark (tag : String) : String :=
  if longStart.toList.isPrefixOf tag.toList then
    "!!" ++ String.ofList (tag.toList.drop longStart.length)
  else tag

def defaultHandles : List (String × String) := [("!", "!"), ("!!", longStart)]

def name (anchor : Option String) (y : Option Yaml) : Reading Unit :=
  match anchor with
  | some a => modify fun r => { r with anchors := (a, y) :: r.anchors }
  | none => pure ()

/-- What stands before a part: its tag and its name. -/
structure Properties where
  tag : Option String := none
  anchor : Option String := none
  start : Mark

def resolveTag (start : Mark) (t : Token) (handle suffix : String) : Reading String := do
  if handle = "" then return suffix
  match (← get).handles.lookup handle with
  | some before => return before ++ suffix
  | none => misplaced start t "found undefined tag handle"

/-- Reads the tag and the name before a part, in either order. -/
def readProperties : Reading Properties := do
  let t ← peek
  match t.kind with
  | .anchor a =>
    advance
    let u ← peek
    match u.kind with
    | .tag handle suffix =>
      advance
      let _ ← peek
      return { tag := some (← resolveTag t.start u handle suffix), anchor := some a, start := t.start }
    | _ => return { anchor := some a, start := t.start }
  | .tag handle suffix =>
    advance
    let u ← peek
    let anchor ← match u.kind with
      | .anchor a =>
        advance
        let _ ← peek
        pure (some a)
      | _ => pure none
    return { tag := some (← resolveTag t.start t handle suffix), anchor, start := t.start }
  | _ => return { start := t.start }

def Properties.tagOr (p : Properties) (default : YamlTag) : YamlTag :=
  match p.tag with
  | some tag => if tag = "" || tag = "!" then default else .ofMark (shortMark tag)
  | none => default

def scalarTag (text : String) (isPlain : Bool) : YamlTag :=
  if !isPlain then .text else if text = "<<" then .merge else Scalar.tagOf text

def nothing (m : Mark) : Yaml := .scalar (m.line + 1) .null ""

def endsMember (k : TokenKind) : Bool := k = .key || k = .value || k = .blockEnd

mutual

/-- Reads a part. `inBlock` tells that it may be a block, `indentless` that it may be a list
that is not indented. -/
def readNode : (fuel : Nat) → (inBlock indentless : Bool) → Reading Yaml
  | 0, _, _ => throw (.plain "exceeded max depth")
  | fuel + 1, inBlock, indentless => do
    let first ← peek
    match first.kind with
    | .reference a =>
      match (← get).anchors.lookup a with
      | none => throw (.plain ("unknown anchor '" ++ a ++ "' referenced"))
      | some y =>
        advance
        return .reference (first.start.line + 1) a y
    | _ =>
      let p ← readProperties
      let t ← peek
      let line := p.start.line + 1
      let collect (rest : Reading Yaml) : Reading Yaml := do
        name p.anchor none
        let y ← rest
        name p.anchor (some y)
        return y
      match t.kind with
      | .scalar text isPlain =>
        let y := .scalar line (p.tagOr (scalarTag text isPlain)) text
        name p.anchor (some y)
        advance
        return y
      | .flowSequenceStart =>
        collect do
          advance
          return .sequence line (p.tagOr .sequence) (← flowItems fuel true t.start)
      | .flowMappingStart =>
        collect do
          advance
          return .mapping line (p.tagOr .mapping) (← flowMembers fuel true t.start)
      | k =>
        if indentless && k = .blockEntry then
          collect do
            return .sequence line (p.tagOr .sequence) (← indentlessItems fuel)
        else if inBlock && k = .blockSequenceStart then
          collect do
            advance
            return .sequence line (p.tagOr .sequence) (← blockItems fuel t.start)
        else if inBlock && k = .blockMappingStart then
          collect do
            advance
            return .mapping line (p.tagOr .mapping) (← blockMembers fuel t.start)
        else if p.anchor.isSome || p.tag.any (· != "") then
          let y := .scalar line (p.tagOr .null) ""
          name p.anchor (some y)
          return y
        else misplaced p.start t "did not find expected node content"

def blockItems : (fuel : Nat) → (context : Mark) → Reading (List Yaml)
  | 0, _ => throw (.plain "exceeded max depth")
  | fuel + 1, context => do
    let t ← peek
    if t.kind = .blockEntry then
      advance
      let u ← peek
      let item ← if u.kind = .blockEntry || u.kind = .blockEnd then pure (nothing t.stop)
        else readNode fuel true false
      return item :: (← blockItems fuel context)
    else if t.kind = .blockEnd then
      advance
      return []
    else misplaced context t "did not find expected '-' indicator"

def indentlessItems : (fuel : Nat) → Reading (List Yaml)
  | 0 => throw (.plain "exceeded max depth")
  | fuel + 1 => do
    let t ← peek
    if t.kind = .blockEntry then
      advance
      let u ← peek
      let item ← if u.kind = .blockEntry || endsMember u.kind then pure (nothing t.stop)
        else readNode fuel true false
      return item :: (← indentlessItems fuel)
    else return []

def blockMembers : (fuel : Nat) → (context : Mark) → Reading (List (Yaml × Yaml))
  | 0, _ => throw (.plain "exceeded max depth")
  | fuel + 1, context => do
    let t ← peek
    if t.kind = .key then
      advance
      let u ← peek
      let k ← if endsMember u.kind then pure (nothing t.stop) else readNode fuel true true
      let t ← peek
      let v ←
        if t.kind = .value then do
          advance
          let u ← peek
          if endsMember u.kind then pure (nothing t.stop) else readNode fuel true true
        else pure (nothing t.start)
      return (k, v) :: (← blockMembers fuel context)
    else if t.kind = .blockEnd then
      advance
      return []
    else misplaced context t "did not find expected key"

def flowItems : (fuel : Nat) → (first : Bool) → (context : Mark) → Reading (List Yaml)
  | 0, _, _ => throw (.plain "exceeded max depth")
  | fuel + 1, first, context => do
    let t ← peek
    if t.kind = .flowSequenceEnd then
      advance
      return []
    else
      if !first then
        if t.kind = .flowEntry then advance
        else misplaced context t "did not find expected ',' or ']'"
      let t ← peek
      if t.kind = .key then
        advance
        let pair ← flowPair fuel
        return .mapping (t.start.line + 1) .mapping [pair] :: (← flowItems fuel false context)
      else if t.kind = .flowSequenceEnd then
        advance
        return []
      else
        let item ← readNode fuel false false
        return item :: (← flowItems fuel false context)

/-- Reads a mapping with one member that stands without brackets in a list. -/
def flowPair : (fuel : Nat) → Reading (Yaml × Yaml)
  | 0 => throw (.plain "exceeded max depth")
  | fuel + 1 => do
    let isEnd (k : TokenKind) : Bool := k = .flowEntry || k = .flowSequenceEnd
    let t ← peek
    let k ←
      if t.kind = .value || isEnd t.kind then do
        advance
        pure (nothing t.stop)
      else readNode fuel false false
    let t ← peek
    let v ←
      if t.kind = .value then do
        advance
        let u ← peek
        if isEnd u.kind then pure (nothing u.start) else readNode fuel false false
      else pure (nothing t.start)
    return (k, v)

def flowMembers : (fuel : Nat) → (first : Bool) → (context : Mark) → Reading (List (Yaml × Yaml))
  | 0, _, _ => throw (.plain "exceeded max depth")
  | fuel + 1, first, context => do
    let isEnd (k : TokenKind) : Bool := k = .flowEntry || k = .flowMappingEnd
    let t ← peek
    if t.kind = .flowMappingEnd then
      advance
      return []
    else
      if !first then
        if t.kind = .flowEntry then advance
        else misplaced context t "did not find expected ',' or '\x7d'"
      let t ← peek
      if t.kind = .key then
        advance
        let u ← peek
        let k ← if u.kind = .value || isEnd u.kind then pure (nothing u.start)
          else readNode fuel false false
        let t ← peek
        let v ←
          if t.kind = .value then do
            advance
            let u ← peek
            if isEnd u.kind then pure (nothing u.start) else readNode fuel false false
          else pure (nothing t.start)
        return (k, v) :: (← flowMembers fuel false context)
      else if t.kind = .flowMappingEnd then
        advance
        return []
      else
        let k ← readNode fuel false false
        let t ← peek
        return (k, nothing t.start) :: (← flowMembers fuel false context)

end

def readDirectives : (fuel : Nat) → (hasVersion : Bool) → Reading Unit
  | 0, _ => pure ()
  | fuel + 1, hasVersion => do
    let t ← peek
    match t.kind with
    | .versionDirective major minor =>
      if hasVersion then misplaced {} t "found duplicate %YAML directive"
      if major != 1 || minor != 1 then misplaced {} t "found incompatible YAML document"
      advance
      readDirectives fuel true
    | .tagDirective handle start =>
      if ((← get).handles.lookup handle).isSome then
        misplaced {} t "found duplicate %TAG directive"
      modify fun r => { r with handles := (handle, start) :: r.handles }
      advance
      readDirectives fuel hasVersion
    | _ => modify fun r => { r with handles := r.handles ++ defaultHandles }

def readDocument (fuel : Nat) : Reading (Option Yaml) := do
  let _ ← peek
  advance
  let t ← peek
  let isExplicit := match t.kind with
    | .versionDirective _ _ => true
    | .tagDirective _ _ => true
    | k => k = .documentStart
  if t.kind = .fileEnd then return none
  readDirectives fuel false
  if isExplicit then
    let t ← peek
    if t.kind != .documentStart then
      misplaced {} t "did not find expected <document start>"
    advance
  let t ← peek
  let isEmpty := isExplicit && match t.kind with
    | .versionDirective _ _ => true
    | .tagDirective _ _ => true
    | k => k = .documentStart || k = .documentEnd || k = .fileEnd
  let y ← if isEmpty then pure (nothing t.start) else readNode fuel true false
  let _ ← peek
  return some y

def isAllowed (c : Char) : Bool :=
  let n := c.toNat
  n = 9 || n = 10 || n = 13 || (0x20 ≤ n && n ≤ 0x7E) || n = 0x85 || (0xA0 ≤ n && n ≤ 0xD7FF) ||
    (0xE000 ≤ n && n ≤ 0xFFFD && n != 0xFEFF) || 0x10000 ≤ n

def withoutMark (source : String) : String :=
  match source.toList with
  | c :: cs => if c.toNat = 0xFEFF then String.ofList cs else source
  | [] => source

/-- The contents of a file; none if it holds nothing. -/
def read (source : String) : Except YamlFault (Option Yaml) :=
  let text := withoutMark source
  if !text.toList.all isAllowed then .error (.plain "control characters are not allowed")
  else (readDocument (4 * text.length + 16)).run' { scanner := .ofText text }

end Yaml
end ModelGraph
