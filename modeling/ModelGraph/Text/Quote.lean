/-
# Quoted text

Messages show foreign text between quotes, with escapes for what would not show: one
letter where the control character has one, else the code point in hex. Double quotes
escape the double quote, single quotes the single one.
-/
import ModelGraph.Text.Hex
import ModelGraph.Text.Printable

namespace ModelGraph

def quotedChar (c : Char) : List Char :=
  match c with
  | '"' => ['\\', '"']
  | '\\' => ['\\', '\\']
  | c =>
    if isPrintable c then [c]
    else
      match c.toNat with
      | 7 => ['\\', 'a']
      | 8 => ['\\', 'b']
      | 12 => ['\\', 'f']
      | 10 => ['\\', 'n']
      | 13 => ['\\', 'r']
      | 9 => ['\\', 't']
      | 11 => ['\\', 'v']
      | n =>
        if n < 0x20 || n = 0x7F then '\\' :: 'x' :: hex 2 n
        else if n < 0x10000 then '\\' :: 'u' :: hex 4 n
        else '\\' :: 'U' :: hex 8 n

def quoted (s : String) : String :=
  String.ofList ('"' :: s.toList.flatMap quotedChar ++ ['"'])

def singleQuotedChar (c : Char) : List Char :=
  match c with
  | '\'' => ['\\', '\'']
  | '"' => ['"']
  | c => quotedChar c

def singleQuoted (s : String) : String :=
  String.ofList ('\'' :: s.toList.flatMap singleQuotedChar ++ ['\''])

end ModelGraph
