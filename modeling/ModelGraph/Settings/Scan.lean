/-
# Reading tokens

Tokens are read one by one into a queue. A scalar or a bracket may turn out to be the key
of a mapping only when the colon after it is seen; the token that tells so is put in
front of it then. So a token can be taken from the queue only when it cannot become a
key any more, and when two more tokens have been read.
-/
import ModelGraph.Settings.ScalarText

namespace ModelGraph

/-- A place where the key of a mapping may have begun. -/
structure SimpleKey where
  possible : Bool := false
  /-- Nothing but a key can stand there. -/
  required : Bool := false
  token : Nat := 0
  mark : Mark := {}
  deriving Repr, BEq, DecidableEq, Inhabited

/-- A file of which some tokens have been read. -/
structure Scanner where
  cursor : Cursor
  size : Nat
  started : Bool := false
  queue : List Token := []
  taken : Nat := 0
  /-- The column of the block at hand plus one; zero outside of blocks. -/
  indent : Nat := 0
  indents : List Nat := []
  keyAllowed : Bool := false
  /-- Where a key may have begun: for the brackets that are open, the innermost first, and
  for the block around them. -/
  keys : List SimpleKey := []
  /-- Which tokens may be keys, with the number of brackets around them. -/
  keyTokens : List (Nat × Nat) := []
  deriving Repr, BEq, Inhabited

abbrev Scan : Type → Type := StateT Scanner (Except YamlFault)

namespace Scanner

def ofText (text : String) : Scanner :=
  { cursor := { rest := text.toList }, size := text.length }

def flowLevel (s : Scanner) : Nat := s.keys.length - 1

def inFlow (s : Scanner) : Bool := s.flowLevel != 0

def mark (s : Scanner) : Mark := s.cursor.mark

def failAt (context : Mark) (text : String) : Scan α := do
  throw (.unreadable context (← get).mark text)

def moveTo (r : Cursor) : Scan Unit := modify fun s => { s with cursor := r }

def push (kind : TokenKind) (start stop : Mark) : Scan Unit :=
  modify fun s => { s with queue := s.queue ++ [{ kind, start, stop }] }

/-- Puts a token in front of the token of the given number, or at the end. -/
def insert (number : Option Nat) (kind : TokenKind) (mark : Mark) : Scan Unit :=
  modify fun s =>
    let i := match number with
      | some n => n - s.taken
      | none => s.queue.length
    { s with queue := s.queue.take i ++ { kind, start := mark, stop := mark } :: s.queue.drop i }

/-- How deep brackets and blocks may be nested. -/
def maxDepth : Nat := 10000

/-- Ends if parts are nested too deep. -/
def checkDepth (depth : Nat) : Scan Unit := do
  if maxDepth < depth then
    failAt ((← get).keys.headD {}).mark s!"exceeded max depth of {maxDepth}"

/-! ## Keys -/

def colonExpected : String := "could not find expected ':'"

/-- Whether a key may still begin at a place: it has to end on the line where it begins,
within 1024 characters. -/
def isLive (s : Scanner) (k : SimpleKey) : Except YamlFault Bool :=
  if !k.possible then .ok false
  else if k.mark.line < s.mark.line || k.mark.index + 1024 < s.mark.index then
    if k.required then .error (.unreadable k.mark s.mark colonExpected) else .ok false
  else .ok true

def dropKey : Scan Unit := do
  match (← get).keys with
  | k :: rest =>
    if k.possible then
      if k.required then failAt k.mark colonExpected
      modify fun s => { s with
        keys := { k with possible := false } :: rest
        keyTokens := s.keyTokens.filter fun t => t.1 != k.token }
  | [] => pure ()

def noteKey : Scan Unit := do
  let s ← get
  if s.keyAllowed then
    let k : SimpleKey :=
      { possible := true
        required := !s.inFlow && s.indent = s.mark.column + 1
        token := s.taken + s.queue.length
        mark := s.mark }
    dropKey
    modify fun s => { s with
      keys := k :: s.keys.drop 1
      keyTokens := (k.token, s.flowLevel) :: s.keyTokens.filter fun t => t.1 != k.token }

/-! ## Indentation -/

/-- Begins a block at a column, unless the block at hand is as far to the right. The token
that tells so goes in front of the token of the given number. -/
def openBlock (column : Nat) (number : Option Nat) (kind : TokenKind) (mark : Mark) :
    Scan Unit := do
  let s ← get
  if !s.inFlow && s.indent < column + 1 then
    set { s with indents := s.indent :: s.indents, indent := column + 1 }
    checkDepth (s.indents.length + 1)
    insert number kind mark

def closeBlocks (least : Nat) (mark : Mark) : List Nat → Scan Unit
  | [] => pure ()
  | outer :: rest => do
    if (← get).indent > least then
      push .blockEnd mark mark
      modify fun s => { s with indent := outer, indents := rest }
      closeBlocks least mark rest

/-- Ends blocks, unless brackets are open. -/
def unindent (least : Nat) (mark : Mark) : Scan Unit := do
  let s ← get
  if !s.inFlow then closeBlocks least mark s.indents

/-! ## Blanks and comments -/

/-- Passes over comments: what is left of the line, and further lines of comments that
follow, with empty lines between. -/
def skipComments : (fuel : Nat) → Cursor → Cursor
  | 0, r => r
  | fuel + 1, r =>
    let r := r.skipToLineEnd
    match ScalarText.skipGap 0 r.mark (r.rest.length + 1) r {} with
    | .ok (next, _) => if next.isAt '#' then skipComments fuel next else r
    | .error _ => r

/-- Passes over blanks, comments and ends of lines. A tab is no blank where a key may
begin in a block. After the end of a line a key may begin in a block. -/
def skipToToken (inFlow : Bool) : (fuel : Nat) → (keyAllowed : Bool) → Cursor → Bool × Cursor
  | 0, keyAllowed, r => (keyAllowed, r)
  | fuel + 1, keyAllowed, r =>
    let r := r.skipWhile fun c => c = ' ' || ((inFlow || !keyAllowed) && c = '\t')
    let r := if r.isAt '#' then skipComments (r.rest.length + 1) r else r
    if r.isBreak then skipToToken inFlow fuel (keyAllowed || !inFlow) r.skipLine
    else (keyAllowed, r)

/-! ## Tokens of one character and marks -/

def take (kind : TokenKind) (width : Nat) : Scan Unit := do
  let r := (← get).cursor
  let next := r.skipMany width
  moveTo next
  push kind r.mark next.mark

def allowKey (allowed : Bool) : Scan Unit := modify fun s => { s with keyAllowed := allowed }

def fetchStart : Scan Unit := do
  modify fun s => { s with started := true, keys := [{}], keyAllowed := true }
  let m := (← get).mark
  push .fileStart m m

def fetchEnd : Scan Unit := do
  modify fun s =>
    let m := s.mark
    if m.column = 0 then s
    else { s with cursor := { s.cursor with mark := { m with line := m.line + 1, column := 0 } } }
  unindent 0 (← get).mark
  dropKey
  allowKey false
  let m := (← get).mark
  push .fileEnd m m

def fetchDocumentMark (kind : TokenKind) : Scan Unit := do
  unindent 0 (← get).mark
  dropKey
  allowKey false
  take kind 3

/-- An opening bracket. It may begin a key. -/
def fetchFlowStart (kind : TokenKind) : Scan Unit := do
  noteKey
  modify fun s =>
    { s with keys := { token := s.taken + s.queue.length, mark := s.mark } :: s.keys }
  checkDepth (← get).flowLevel
  allowKey true
  take kind 1

def fetchFlowEnd (kind : TokenKind) : Scan Unit := do
  dropKey
  modify fun s =>
    match s.keys with
    | k :: outer :: rest =>
      { s with
        keys := outer :: rest
        keyTokens := s.keyTokens.filter fun t => t.1 != k.token }
    | _ => s
  allowKey false
  take kind 1

def fetchFlowEntry : Scan Unit := do
  dropKey
  allowKey true
  take .flowEntry 1

def fetchBlockEntry : Scan Unit := do
  let s ← get
  if !s.inFlow then
    if !s.keyAllowed then
      failAt s.mark "block sequence entries are not allowed in this context"
    openBlock s.mark.column none .blockSequenceStart s.mark
  dropKey
  allowKey true
  take .blockEntry 1

def fetchKey : Scan Unit := do
  let s ← get
  if !s.inFlow then
    if !s.keyAllowed then failAt s.mark "mapping keys are not allowed in this context"
    openBlock s.mark.column none .blockMappingStart s.mark
  dropKey
  allowKey (!s.inFlow)
  take .key 1

def fetchValue : Scan Unit := do
  let s ← get
  let k := s.keys.headD {}
  if ← isLive s k then
    insert (some k.token) .key k.mark
    openBlock k.mark.column (some k.token) .blockMappingStart k.mark
    modify fun s => { s with
      keys := { k with possible := false } :: s.keys.drop 1
      keyTokens := s.keyTokens.filter fun t => t.1 != k.token }
    allowKey false
  else
    modify fun s => { s with keys := { k with possible := false } :: s.keys.drop 1 }
    if !s.inFlow then
      if !s.keyAllowed then failAt s.mark "mapping values are not allowed in this context"
      openBlock s.mark.column none .blockMappingStart s.mark
    allowKey (!s.inFlow)
  take .value 1

/-! ## Names, tags and directives -/

def fetchAnchor (isReference : Bool) : Scan Unit := do
  noteKey
  allowKey false
  let start := (← get).cursor
  let name := start.skip.takeWhile isNameChar
  let r := start.skip.skipMany name.length
  moveTo r
  let ends := r.isSpaceAt 0 || r.next?.any fun c =>
    ['?', ':', ',', ']', '\x7d', '%', '@', '\x60'].contains c
  if name.isEmpty || !ends then
    failAt start.mark "did not find expected alphabetic or numeric character"
  let name := String.ofList name
  push (if isReference then .reference name else .anchor name) start.mark r.mark

def isTagChar (c : Char) : Bool :=
  isNameChar c ||
    [';', '/', '?', ':', '@', '&', '=', '+', '$', ',', '.', '!', '~', '*', '\'', '(', ')', '[',
     ']', '%'].contains c

/-- The characters of a tag. There have to be some, unless `hasSome` tells that there were
some before. -/
def readTagText (hasSome : Bool) (context : Mark) : Scan String := do
  let r := (← get).cursor
  let text := r.takeWhile isTagChar
  if !hasSome && text.isEmpty then failAt context "did not find expected tag URI"
  moveTo (r.skipMany text.length)
  return String.ofList text

/-- The handle of a tag: a name between exclamation marks, or a single mark with what
follows it. -/
def readTagHandle : Scan String := do
  let r := (← get).cursor
  let name := r.skip.takeWhile isNameChar
  let after := r.skip.skipMany name.length
  let closed := after.isAt '!'
  moveTo (if closed then after.skip else after)
  return String.ofList ('!' :: name ++ if closed then ['!'] else [])

def fetchTag : Scan Unit := do
  noteKey
  allowKey false
  let start := (← get).cursor
  let (handle, suffix) ←
    if start.at? 1 = some '<' then do
      moveTo (start.skipMany 2)
      let suffix ← readTagText false start.mark
      let r := (← get).cursor
      if !r.isAt '>' then failAt start.mark "did not find the expected '>'"
      moveTo r.skip
      pure ("", suffix)
    else do
      let handle ← readTagHandle
      if 1 < handle.length && handle.toList.getLast? = some '!' then
        pure (handle, ← readTagText false start.mark)
      else
        let rest ← readTagText true start.mark
        let suffix := String.ofList (handle.toList.drop 1) ++ rest
        pure (if suffix = "" then ("", "!") else ("!", suffix))
  let r := (← get).cursor
  if !r.isSpaceAt 0 then
    failAt start.mark "did not find expected whitespace or line break"
  push (.tag handle suffix) start.mark r.mark

def readVersionNumber (context : Mark) : Scan Nat := do
  let r := (← get).cursor
  let digits := r.takeWhile Char.isDigit
  if 2 < digits.length then failAt context "found extremely long version number"
  if digits.isEmpty then failAt context "did not find expected version number"
  moveTo (r.skipMany digits.length)
  return digits.foldl (fun n c => 10 * n + (c.toNat - 48)) 0

def readDirective (context : Mark) (name : String) : Scan TokenKind := do
  if name = "YAML" then
    moveTo (← get).cursor.skipBlanks
    let major ← readVersionNumber context
    let r := (← get).cursor
    if !r.isAt '.' then failAt context "did not find expected digit or '.' character"
    moveTo r.skip
    return .versionDirective major (← readVersionNumber context)
  else if name = "TAG" then
    let r := (← get).cursor.skipBlanks
    moveTo r
    if !r.isAt '!' then failAt context "did not find expected '!'"
    let handle ← readTagHandle
    if handle != "!" && !(1 < handle.length && handle.toList.getLast? = some '!') then
      failAt context "did not find expected '!'"
    let r := (← get).cursor
    if !r.isBlank then failAt context "did not find expected whitespace"
    moveTo r.skipBlanks
    let start ← readTagText false context
    if !(← get).cursor.isSpaceAt 0 then
      failAt context "did not find expected whitespace or line break"
    return .tagDirective handle start
  else failAt context "found unknown directive name"

def fetchDirective : Scan Unit := do
  unindent 0 (← get).mark
  dropKey
  allowKey false
  let start := (← get).cursor
  let name := start.skip.takeWhile isNameChar
  let r := start.skip.skipMany name.length
  moveTo r
  if name.isEmpty then failAt start.mark "could not find expected directive name"
  if !r.isSpaceAt 0 then failAt start.mark "found unexpected non-alphabetical character"
  let kind ← readDirective start.mark (String.ofList name)
  let stop := (← get).mark
  let r := (← get).cursor.skipBlanks
  let r := if r.isAt '#' then r.skipToLineEnd else r
  moveTo r
  if !r.isLineEnd then failAt start.mark "did not find expected comment or line break"
  moveTo (if r.isBreak then r.skipLine else r)
  push kind start.mark stop

/-! ## Scalars -/

def fetchBlockScalar (isLiteral : Bool) : Scan Unit := do
  dropKey
  allowKey true
  let s ← get
  let (text, r) ← ScalarText.readBlock isLiteral s.indent s.cursor
  moveTo r
  push (.scalar text false) s.mark r.mark

def fetchQuoted (quote : Char) : Scan Unit := do
  noteKey
  allowKey false
  let s ← get
  let (text, r) ← ScalarText.readQuoted quote s.cursor
  moveTo r
  push (.scalar text false) s.mark r.mark

/-- A plain text. After the end of a line a key may begin. -/
def fetchPlain : Scan Unit := do
  noteKey
  allowKey false
  let s ← get
  let (text, stop, broken, r) ← ScalarText.readPlain s.inFlow s.indent s.cursor
  moveTo r
  if broken then allowKey true
  push (.scalar text true) s.mark stop

def startsPlain (inFlow : Bool) (r : Cursor) : Bool :=
  match r.next? with
  | none => false
  | some c =>
    let isMark := ['-', '?', ':', ',', '[', ']', '\x7b', '\x7d', '#', '&', '*', '!', '|', '>', '\'',
      '"', '%', '@', '\x60'].contains c
    !(isMark || r.isSpaceAt 0) || (c = '-' && !(r.at? 1).any isBlankOrTab) ||
      (!inFlow && (c = '?' || c = ':') && !r.isSpaceAt 1)

def fetch : Scan Unit := do
  if !(← get).started then fetchStart
  else
    let s ← get
    let from_ := s.mark
    let (keyAllowed, r) := skipToToken s.inFlow (s.size + 1) s.keyAllowed s.cursor
    set { s with keyAllowed, cursor := r }
    unindent (r.mark.column + 1) from_
    match r.next? with
    | none => fetchEnd
    | some c =>
      let inFlow := s.inFlow
      if r.mark.column = 0 && c = '%' then fetchDirective
      else if r.isIndicator '-' then fetchDocumentMark .documentStart
      else if r.isIndicator '.' then fetchDocumentMark .documentEnd
      else if c = '[' then fetchFlowStart .flowSequenceStart
      else if c = '\x7b' then fetchFlowStart .flowMappingStart
      else if c = ']' then fetchFlowEnd .flowSequenceEnd
      else if c = '\x7d' then fetchFlowEnd .flowMappingEnd
      else if c = ',' then fetchFlowEntry
      else if c = '-' && r.isSpaceAt 1 then fetchBlockEntry
      else if c = '?' && (inFlow || r.isSpaceAt 1) then fetchKey
      else if c = ':' && (inFlow || r.isSpaceAt 1) then fetchValue
      else if c = '*' then fetchAnchor true
      else if c = '&' then fetchAnchor false
      else if c = '!' then fetchTag
      else if c = '|' && !inFlow then fetchBlockScalar true
      else if c = '>' && !inFlow then fetchBlockScalar false
      else if c = '\'' || c = '"' then fetchQuoted c
      else if startsPlain inFlow r then fetchPlain
      else failAt r.mark "found character that cannot start any token"

/-- Whether the first token of the queue may still become a key. -/
def isOpen (s : Scanner) : Except YamlFault Bool :=
  match s.keyTokens.lookup s.taken with
  | none => .ok false
  | some level =>
    match s.keys[s.flowLevel - level]? with
    | some k => isLive s k
    | none => .ok false

/-- Reads tokens until the first one of the queue can be taken. -/
def fill : (fuel : Nat) → Scan Unit
  | 0 => pure ()
  | fuel + 1 => do
    let s ← get
    let ready ← if 2 < s.queue.length then (!·) <$> (isOpen s : Except YamlFault Bool) else pure false
    if !ready then
      fetch
      fill fuel

def peek : Scan Token := do
  fill ((← get).size + 4)
  let s ← get
  match s.queue with
  | t :: _ => return t
  | [] => return { kind := .fileEnd, start := s.mark, stop := s.mark }

def advance : Scan Unit :=
  modify fun s => { s with queue := s.queue.drop 1, taken := s.taken + 1 }

end Scanner
end ModelGraph
