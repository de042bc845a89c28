/-
# Reading scalars

A scalar is a text in quotes, a plain text, or a block of lines. Quoted and plain texts
may run over lines, which are folded then. A plain text ends at a colon or a comment
mark that stands free, and inside brackets at a bracket or a comma. A block keeps its
lines or folds them, as the mark before it says, and is indented further than what it
belongs to.
-/
import ModelGraph.Settings.Cursor

namespace ModelGraph
namespace ScalarText

/-- What has been passed over between two words: blanks, or ends of lines. -/
structure Gap where
  blanks : List Char := []
  first : List Char := []
  later : List Char := []
  broken : Bool := false

def Gap.text (g : Gap) : List Char :=
  if g.broken then foldedBreaks g.first g.later else g.blanks.reverse

/-- Passes over blanks and ends of lines. Tabs must not stand before the column `least` of
a line. `context` is where the scalar began. -/
def skipGap (least : Nat) (context : Mark) : (fuel : Nat) → Cursor → Gap →
    Except YamlFault (Cursor × Gap)
  | 0, r, g => .ok (r, g)
  | fuel + 1, r, g =>
    match r.next? with
    | none => .ok (r, g)
    | some c =>
      if isBlankOrTab c then
        if g.broken && r.mark.column < least && c = '\t' then
          .error (r.fault context "found a tab character that violates indentation")
        else skipGap least context fuel r.skip
          (if g.broken then g else { g with blanks := c :: g.blanks })
      else if isLineBreak c then
        skipGap least context fuel r.skipLine
          (if g.broken then { g with later := g.later ++ r.lineBreak }
            else { g with blanks := [], first := r.lineBreak, broken := true })
      else .ok (r, g)

/-! ## Quotes -/

def escaped? (c : Char) : Option Char :=
  match c with
  | '0' => some (Char.ofNat 0)
  | 'a' => some (Char.ofNat 7)
  | 'b' => some (Char.ofNat 8)
  | 't' => some '\t'
  | '\t' => some '\t'
  | 'n' => some '\n'
  | 'v' => some (Char.ofNat 0x0B)
  | 'f' => some (Char.ofNat 0x0C)
  | 'r' => some '\r'
  | 'e' => some (Char.ofNat 0x1B)
  | ' ' => some ' '
  | '"' => some '"'
  | '\'' => some '\''
  | '\\' => some '\\'
  | 'N' => some (Char.ofNat 0x85)
  | '_' => some (Char.ofNat 0xA0)
  | 'L' => some (Char.ofNat 0x2028)
  | 'P' => some (Char.ofNat 0x2029)
  | _ => none

def codeLength? (c : Char) : Option Nat :=
  match c with
  | 'x' => some 2
  | 'u' => some 4
  | 'U' => some 8
  | _ => none

def hexDigit? (c : Char) : Option Nat :=
  if c.isDigit then some (c.toNat - 48)
  else if 'a' ≤ c && c ≤ 'f' then some (c.toNat - 87)
  else if 'A' ≤ c && c ≤ 'F' then some (c.toNat - 55)
  else none

def readEscape (context : Mark) (r : Cursor) : Except YamlFault (Char × Cursor) :=
  match r.at? 1 with
  | none => .error (r.fault context "found unknown escape character")
  | some c =>
    match escaped? c, codeLength? c with
    | some d, _ => .ok (d, r.skipMany 2)
    | none, none => .error (r.fault context "found unknown escape character")
    | none, some n =>
      let r := r.skipMany 2
      let values := (r.rest.take n).filterMap hexDigit?
      if values.length != n then
        .error (r.fault context "did not find expected hexdecimal number")
      else
        let code := values.foldl (fun code v => 16 * code + v) 0
        if (0xD800 ≤ code && code ≤ 0xDFFF) || 0x10FFFF < code then
          .error (r.fault context "found invalid Unicode character escape code")
        else .ok (Char.ofNat code, r.skipMany n)

/-- Reads a word inside quotes, after `done`, which is reversed. Tells whether the line
ends with a backslash after it. -/
def quotedWord (quote : Char) (context : Mark) : (fuel : Nat) → Cursor → (done : List Char) →
    Except YamlFault (Cursor × List Char × Bool)
  | 0, r, done => .ok (r, done, false)
  | fuel + 1, r, done =>
    match r.next? with
    | none => .ok (r, done, false)
    | some c =>
      if isBlankOrTab c || isLineBreak c then .ok (r, done, false)
      else if quote = '\'' && c = '\'' && r.at? 1 = some '\'' then
        quotedWord quote context fuel (r.skipMany 2) ('\'' :: done)
      else if c = quote then .ok (r, done, false)
      else if quote = '"' && c = '\\' then
        if (r.at? 1).any isLineBreak then .ok (r.skip.skipLine, done, true)
        else do
          let (d, r) ← readEscape context r
          quotedWord quote context fuel r (d :: done)
      else quotedWord quote context fuel r.skip (c :: done)

def quotedFrom (quote : Char) (context : Mark) : (fuel : Nat) → Cursor → (done : List Char) →
    Except YamlFault (String × Cursor)
  | 0, r, _ => .error (r.fault context "found unexpected end of stream")
  | fuel + 1, r, done =>
    if r.isDocumentMark then .error (r.fault context "found unexpected document indicator")
    else if r.rest.isEmpty then .error (r.fault context "found unexpected end of stream")
    else do
      let (r, done, broken) ← quotedWord quote context (r.rest.length + 1) r done
      if r.isAt quote then return (String.ofList done.reverse, r.skip)
      let (r, gap) ← skipGap 0 context (r.rest.length + 1) r { broken }
      quotedFrom quote context fuel r (gap.text.reverse ++ done)

def readQuoted (quote : Char) (r : Cursor) : Except YamlFault (String × Cursor) :=
  quotedFrom quote r.mark (r.rest.length + 1) r.skip []

/-! ## Plain texts -/

/-- Whether a plain text ends at the cursor. `inFlow` tells that brackets are open. -/
def endsPlain (inFlow : Bool) (r : Cursor) : Bool :=
  match r.next? with
  | none => true
  | some c =>
    isBlankOrTab c || isLineBreak c || (c = ':' && r.isSpaceAt 1) ||
      (inFlow &&
        ([',', '[', ']', '\x7b', '\x7d'].contains c ||
          (c = '?' && r.isSpaceAt 1 && r.at? 1 != some '\t')))

structure Plain where
  done : List Char := []
  gap : Gap := {}
  stop : Mark

def plainWord (inFlow : Bool) : (fuel : Nat) → Cursor → Plain → Cursor × Plain
  | 0, r, p => (r, p)
  | fuel + 1, r, p =>
    match r.next? with
    | none => (r, p)
    | some c =>
      if endsPlain inFlow r then (r, p)
      else plainWord inFlow fuel r.skip
        { done := c :: (p.gap.text.reverse ++ p.done), stop := r.skip.mark }

/-- Reads words of a plain text. In a block, its lines begin at the column `least` or
further on. -/
def plainFrom (inFlow : Bool) (least : Nat) (context : Mark) : (fuel : Nat) → Cursor → Plain →
    Except YamlFault (Cursor × Plain)
  | 0, r, p => .ok (r, p)
  | fuel + 1, r, p =>
    if r.isDocumentMark || r.isAt '#' then .ok (r, p)
    else
      let (r, p) := plainWord inFlow (r.rest.length + 1) r p
      if !(r.isBlank || r.isBreak) then .ok (r, p)
      else do
        let (r, gap) ← skipGap least context (r.rest.length + 1) r p.gap
        let p := { p with gap }
        if !inFlow && r.mark.column < least then return (r, p)
        plainFrom inFlow least context fuel r p

/-- Reads a plain text: the text, where it ends, and whether a line has ended since. -/
def readPlain (inFlow : Bool) (least : Nat) (r : Cursor) :
    Except YamlFault (String × Mark × Bool × Cursor) := do
  let (r, p) ← plainFrom inFlow least r.mark (r.rest.length + 1) r { stop := r.mark }
  return (String.ofList p.done.reverse, p.stop, p.gap.broken, r)

/-! ## Blocks -/

/-- What is done with the ends of lines at the end of a block. -/
inductive Chomping where
  | strip | clip | keep
  deriving Repr, BEq, DecidableEq, Inhabited

def chomping? (r : Cursor) : Option Chomping :=
  if r.isAt '+' then some .keep else if r.isAt '-' then some .strip else none

def readIncrement (context : Mark) (r : Cursor) : Except YamlFault (Option Nat × Cursor) :=
  match r.next? with
  | some c =>
    if c = '0' then .error (r.fault context "found an indentation indicator equal to 0")
    else if c.isDigit then .ok (some (c.toNat - 48), r.skip)
    else .ok (none, r)
  | none => .ok (none, r)

/-- Reads the marks after that of a block: chomping and indentation, in either order. -/
def readHeader (context : Mark) (r : Cursor) :
    Except YamlFault (Chomping × Option Nat × Cursor) :=
  match chomping? r with
  | some chomping => do
    let (increment, r) ← readIncrement context r.skip
    return (chomping, increment, r)
  | none => do
    let (increment, r) ← readIncrement context r
    match increment, chomping? r with
    | some _, some chomping => return (chomping, increment, r.skip)
    | _, _ => return (.clip, increment, r)

/-- Passes over indentation and empty lines before a line of a block. The indentation may
not be known yet; `widest` is the greatest one seen. Gives the ends of the lines. -/
def blockGap (context : Mark) (indent : Option Nat) : (fuel : Nat) → Cursor → (widest : Nat) →
    (breaks : List Char) → Except YamlFault (Cursor × Nat × List Char)
  | 0, r, widest, breaks => .ok (r, widest, breaks)
  | fuel + 1, r, widest, breaks =>
    let blanks := (r.takeWhile (· = ' ')).length
    let r := r.skipMany (match indent with
      | some n => min blanks (n - r.mark.column)
      | none => blanks)
    let widest := max widest r.mark.column
    if indent.all (r.mark.column < ·) && r.isAt '\t' then
      .error (r.fault context "found a tab character where an indentation space is expected")
    else if r.isBreak then
      blockGap context indent fuel r.skipLine widest (breaks ++ r.lineBreak)
    else .ok (r, widest, breaks)

/-- Reads the lines of a block. `done` is reversed; `ended` is the end of the line before,
`breaks` are those of the empty lines after it, and `wasBlank` tells whether the line
before began with a blank. -/
def blockLines (isLiteral : Bool) (context : Mark) (indent : Nat) : (fuel : Nat) → Cursor →
    (done ended breaks : List Char) → (wasBlank : Bool) →
    Except YamlFault (Cursor × List Char × List Char × List Char)
  | 0, r, done, ended, breaks, _ => .ok (r, done, ended, breaks)
  | fuel + 1, r, done, ended, breaks, wasBlank =>
    if r.mark.column != indent || r.rest.isEmpty then .ok (r, done, ended, breaks)
    else
      let folds := !isLiteral && !wasBlank && !r.isBlank && ended.head? = some '\n'
      let joint := if folds then (if breaks.isEmpty then [' '] else []) else ended
      let line := r.takeWhile fun c => !isLineBreak c
      let after := r.skipToLineEnd
      let ended := after.lineBreak
      let next := if after.isBreak then after.skipLine else after
      let done := line.reverse ++ (joint ++ breaks).reverse ++ done
      match blockGap context (some indent) (next.rest.length + 1) next 0 [] with
      | .error fault => .error fault
      | .ok (r', _, breaks) =>
        blockLines isLiteral context indent fuel r' done ended breaks r.isBlank

/-- Reads a block that begins at the cursor with its mark. `outer` is the indentation of
what it belongs to, one more than its column. -/
def readBlock (isLiteral : Bool) (outer : Nat) (r : Cursor) :
    Except YamlFault (String × Cursor) := do
  let context := r.mark
  let (chomping, increment, r) ← readHeader context r.skip
  let r := r.skipBlanks
  let r := if r.isAt '#' then r.skipToLineEnd else r
  if !r.isLineEnd then
    throw (r.fault context "did not find expected comment or line break")
  let r := if r.isBreak then r.skipLine else r
  let given := increment.map (outer - 1 + ·)
  let (r, widest, breaks) ← blockGap context given (r.rest.length + 1) r 0 []
  let indent := given.getD (max (max widest outer) 1)
  let (r, done, ended, breaks) ←
    blockLines isLiteral context indent (r.rest.length + 1) r [] [] breaks false
  let tail := match chomping with
    | .strip => []
    | .clip => ended
    | .keep => ended ++ breaks
  return (String.ofList (done.reverse ++ tail), r)

end ScalarText
end ModelGraph
