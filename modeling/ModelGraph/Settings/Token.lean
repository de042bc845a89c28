/-
# Tokens of settings files

A settings file is read as a row of tokens. Indentation is made visible by tokens of its
own: where the lines of a block begin to stand further to the right, and where they end.
Every token knows where it begins and ends, so that faults can be told with lines.
-/

namespace ModelGraph

/-- A place in a file: the number of characters before it, its line and its column, from
zero on. -/
structure Mark where
  index : Nat := 0
  line : Nat := 0
  column : Nat := 0
  deriving Repr, BEq, DecidableEq, Inhabited

inductive TokenKind where
  | fileStart
  | fileEnd
  | versionDirective (major minor : Nat)
  | tagDirective (handle start : String)
  | documentStart
  | documentEnd
  | blockSequenceStart
  | blockMappingStart
  | blockEnd
  | flowSequenceStart
  | flowSequenceEnd
  | flowMappingStart
  | flowMappingEnd
  | blockEntry
  | flowEntry
  | key
  | value
  | reference (name : String)
  | anchor (name : String)
  | tag (handle suffix : String)
  | scalar (text : String) (isPlain : Bool)
  deriving Repr, BEq, DecidableEq, Inhabited

structure Token where
  kind : TokenKind
  start : Mark
  stop : Mark
  deriving Repr, BEq, DecidableEq, Inhabited

inductive YamlFault where
  /-- No token can be read at `place`; `context` is where it began. -/
  | unreadable (context place : Mark) (text : String)
  | misplaced (context place : Mark) (text : String)
  | plain (text : String)
  deriving Repr, BEq, DecidableEq, Inhabited

namespace YamlFault

/-- The line that a fault is told with: that of the context unless it is the first line,
else that of the place. The first line is not told. -/
def lineOf (context place : Mark) : Nat := if context.line != 0 then context.line else place.line

def withLine (line : Nat) (text : String) : String :=
  if line = 0 then "yaml: " ++ text else s!"yaml: line {line}: " ++ text

/-- The fault in words. The line of a token that is out of place is counted from zero. -/
def message : YamlFault → String
  | unreadable context place text =>
    let line := lineOf context place
    withLine (if line = 0 then 0 else line + 1) text
  | misplaced context place text => withLine (lineOf context place) text
  | plain text => "yaml: " ++ text

end YamlFault
end ModelGraph
