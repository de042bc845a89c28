/-
# Writing scalars

A text is written so that it is read back as a text: plain if nothing in it could be
taken for something else, else in quotes, and as a block if it has several lines. Single
quotes are enough unless there are characters that have to be shown by an escape.
-/
import ModelGraph.Settings.Cursor
import ModelGraph.Settings.Scalar

namespace ModelGraph

inductive ScalarStyle where
  | plain
  | single
  | double
  | block
  deriving Repr, BEq, DecidableEq, Inhabited

namespace Scalar

/-! ## What a text holds -/

def isShown (c : Char) : Bool :=
  let n := c.toNat
  n = 0x0A || (0x20 ≤ n && n ≤ 0x7E) || (0xA0 ≤ n && n ≤ 0xD7FF) ||
    (0xE000 ≤ n && n ≤ 0xFFFD && n != 0xFEFF)

def hasHidden (cs : List Char) : Bool := cs.any fun c => c != '\t' && !isShown c

/-- Whether a relation holds between two characters that stand side by side. -/
def anyPair (p : Char → Char → Bool) (cs : List Char) : Bool :=
  (cs.zip cs.tail).any fun (a, b) => p a b

def hasBlankBeforeBreak (cs : List Char) : Bool := anyPair (fun a b => a = ' ' && isLineBreak b) cs

def hasBlankAfterBreak (cs : List Char) : Bool := anyPair (fun a b => isLineBreak a && b = ' ') cs

/-- Whether characters are a part of a number in base sixty. -/
def isSixtieth (cs : List Char) : Bool :=
  match cs with
  | [a] => a.isDigit
  | [a, b] => '0' ≤ a && a ≤ '5' && b.isDigit
  | _ => false

/-- Whether a text looks like a number in base sixty, with colons between the digits. -/
def isSexagesimal (text : String) : Bool :=
  let body := (signed text.toList).2
  let isFiller (c : Char) : Bool := c.isDigit || c = '_'
  let isEnd : List Char → Bool
    | [] => true
    | c :: cs => c = '.' && cs.all isFiller
  isEnd (body.dropWhile (· != '.')) &&
    match (String.ofList (body.takeWhile (· != '.'))).splitOn ":" with
    | whole :: part :: parts =>
      whole.toList.head?.any Char.isDigit && whole.toList.all isFiller &&
        (part :: parts).all fun p => isSixtieth p.toList
    | _ => false

/-- Whether a plain text would be taken for something else than a text. -/
def isAmbiguous (text : String) : Bool :=
  tagOf text != .text || isSexagesimal text || (truthWords.lookup text).isSome

def marks : List Char :=
  ['#', ',', '[', ']', '\x7b', '\x7d', '&', '*', '!', '|', '>', '\'', '"', '%', '@', '\x60']

/-- Whether characters have a mark where it counts: at the start, a colon before a blank, or
a comment mark after one. -/
def hasMark (cs : List Char) : Bool :=
  let start := match cs with
    | c :: rest => marks.contains c || ((c = '?' || c = '-') && rest.head?.all isBlankOrTab)
    | [] => false
  start || cs.take 3 = ['-', '-', '-'] || cs.take 3 = ['.', '.', '.'] ||
    cs.getLast? = some ':' || anyPair (fun a b => a = ':' && isBlankOrTab b) cs ||
    anyPair (fun a b => (isBlankOrTab a || isLineBreak a) && b = '#') cs

/-- Whether characters can stand without quotes. -/
def isBare (cs : List Char) : Bool :=
  cs.head? != some ' ' && cs.getLast? != some ' ' && !hasMark cs &&
    cs.all fun c => isShown c && !isLineBreak c

/-- Whether characters can stand in single quotes. -/
def isQuotable (cs : List Char) : Bool :=
  !hasBlankAfterBreak cs && !hasBlankBeforeBreak cs && cs.all isShown

def isBlock (cs : List Char) : Bool :=
  cs.getLast? != some ' ' && !hasBlankBeforeBreak cs && !hasHidden cs

end Scalar

def ScalarStyle.ofText (text : String) : ScalarStyle :=
  let cs := text.toList
  if cs.contains '\n' then if Scalar.isBlock cs then .block else .double
  else if Scalar.isAmbiguous text then .double
  else if Scalar.isBare cs then .plain
  else if Scalar.isQuotable cs then .single
  else .double

namespace Scalar

/-! ## How it is written -/

/-- The digits of a number in base sixteen, so many as asked for. -/
def hexDigits : (count : Nat) → Nat → List Char
  | 0, _ => []
  | count + 1, n =>
    let d := n % 16
    hexDigits count (n / 16) ++ [Char.ofNat (if d < 10 then 48 + d else 55 + d)]

def escapeOf (c : Char) : List Char :=
  match c.toNat with
  | 0x00 => ['0']
  | 0x07 => ['a']
  | 0x08 => ['b']
  | 0x09 => ['t']
  | 0x0A => ['n']
  | 0x0B => ['v']
  | 0x0C => ['f']
  | 0x0D => ['r']
  | 0x1B => ['e']
  | 0x22 => ['"']
  | 0x5C => ['\\']
  | 0x85 => ['N']
  | 0xA0 => ['_']
  | 0x2028 => ['L']
  | 0x2029 => ['P']
  | n =>
    if n ≤ 0xFF then 'x' :: hexDigits 2 n
    else if n ≤ 0xFFFF then 'u' :: hexDigits 4 n
    else 'U' :: hexDigits 8 n

def escape (c : Char) : List Char :=
  if !isShown c || isLineBreak c || c = '"' || c = '\\' then '\\' :: escapeOf c else [c]

/-- Characters with `pad` before each line; `fresh` tells that a line begins. -/
def padLines (pad : List Char) : (fresh : Bool) → List Char → List Char
  | _, [] => []
  | fresh, c :: cs =>
    if isLineBreak c then c :: padLines pad true cs
    else (if fresh then pad else []) ++ c :: padLines pad false cs

/-- What stands after the mark of a block: the indentation, if the first line does not show
it, and what becomes of the last end of a line. -/
def blockHints (cs : List Char) : List Char :=
  let indentation := if cs.head?.any (fun c => c = ' ' || isLineBreak c) then ['4'] else []
  let ending := match cs.reverse with
    | [] => ['-']
    | c :: before =>
      if !isLineBreak c then ['-'] else if before.head?.all isLineBreak then ['+'] else []
  indentation ++ ending

/-- A text as a block of lines, up to the end of its last line. A first line that is empty
is not written. -/
def blockLines (pad cs : List Char) : List Char :=
  let isBreakAt (c : Option Char) : Bool := c.any isLineBreak
  '|' :: blockHints cs ++ (if isBreakAt cs.head? then [] else ['\n']) ++ padLines pad true cs ++
    (if isBreakAt cs.getLast? then [] else ['\n'])

/-- A text as it is written in a file, up to the end of the line. Lines after the first are
indented by `indent`. -/
def written (indent : Nat) (text : String) : String :=
  let cs := text.toList
  let pad := List.replicate indent ' '
  String.ofList (match ScalarStyle.ofText text with
    | .plain => cs ++ ['\n']
    | .single =>
      let body := cs.flatMap fun c => if c = '\'' then ['\'', '\''] else [c]
      '\'' :: padLines pad false body ++ ['\'', '\n']
    | .double => '"' :: cs.flatMap escape ++ ['"', '\n']
    | .block => blockLines pad cs)

end Scalar
end ModelGraph
