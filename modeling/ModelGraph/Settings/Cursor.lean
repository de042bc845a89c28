/-
# Reading a file character by character

A cursor stands at a place in a file and knows the characters that are left. Lines end
at a line feed, a carriage return or both, or at one of the line separators of Unicode.

Texts that run over lines are folded: a single end of a line becomes a blank, and of
several the first one is dropped.
-/
import ModelGraph.Settings.Token

namespace ModelGraph

structure Cursor where
  rest : List Char
  mark : Mark := {}
  deriving Repr, BEq, DecidableEq, Inhabited

def isLineBreak (c : Char) : Bool :=
  c = '\n' || c = '\r' || c.toNat = 0x85 || c.toNat = 0x2028 || c.toNat = 0x2029

def isBlankOrTab (c : Char) : Bool := c = ' ' || c = '\t'

def isNameChar (c : Char) : Bool := c.toNat < 0x80 && (c.isAlphanum || c = '_' || c = '-')

namespace Cursor

def at? (r : Cursor) (k : Nat) : Option Char := r.rest[k]?

def next? (r : Cursor) : Option Char := r.rest.head?

def isAt (r : Cursor) (c : Char) : Bool := r.next? = some c

/-- Whether the character number `k` is a blank, the end of a line or the end of the file. -/
def isSpaceAt (r : Cursor) (k : Nat) : Bool :=
  (r.at? k).all fun c => isBlankOrTab c || isLineBreak c

def isLineEnd (r : Cursor) : Bool := r.next?.all isLineBreak

/-- Whether the line ends here, and not the file. -/
def isBreak (r : Cursor) : Bool := r.next?.any isLineBreak

def isBlank (r : Cursor) : Bool := r.next?.any isBlankOrTab

def skip (r : Cursor) : Cursor :=
  { rest := r.rest.tail
    mark := { r.mark with index := r.mark.index + 1, column := r.mark.column + 1 } }

def skipMany (r : Cursor) (n : Nat) : Cursor :=
  { rest := r.rest.drop n
    mark := { r.mark with index := r.mark.index + n, column := r.mark.column + n } }

def skipLine (r : Cursor) : Cursor :=
  let width := match r.rest with
    | '\r' :: '\n' :: _ => 2
    | _ => 1
  { rest := r.rest.drop width
    mark := { index := r.mark.index + width, line := r.mark.line + 1, column := 0 } }

/-- How the end of a line counts in a text: the separators of Unicode stay as they are. -/
def lineBreak (r : Cursor) : List Char :=
  match r.next? with
  | some c => if c.toNat = 0x2028 || c.toNat = 0x2029 then [c] else ['\n']
  | none => []

/-- Passes over characters of a kind on one line. -/
def skipWhile (p : Char → Bool) (r : Cursor) : Cursor := r.skipMany (r.rest.takeWhile p).length

def takeWhile (p : Char → Bool) (r : Cursor) : List Char := r.rest.takeWhile p

def skipBlanks (r : Cursor) : Cursor := r.skipWhile isBlankOrTab

def skipToLineEnd (r : Cursor) : Cursor := r.skipWhile fun c => !isLineBreak c

/-- Whether a line begins here with a mark of three characters that stands alone. -/
def isIndicator (r : Cursor) (c : Char) : Bool :=
  r.mark.column = 0 && r.rest.take 3 = [c, c, c] && r.isSpaceAt 3

/-- Whether a line begins here that ends a document or begins one. -/
def isDocumentMark (r : Cursor) : Bool := r.isIndicator '-' || r.isIndicator '.'

def fault (r : Cursor) (context : Mark) (text : String) : YamlFault :=
  .unreadable context r.mark text

end Cursor

/-- What the ends of lines inside a text count for. -/
def foldedBreaks (first later : List Char) : List Char :=
  if first.head? = some '\n' then (if later.isEmpty then [' '] else later) else first ++ later

end ModelGraph
