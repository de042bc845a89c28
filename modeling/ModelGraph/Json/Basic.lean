/-
# JSON values that know their text

A value keeps the text it was read from: numbers their literal, strings the
literal with its escapes, arrays and objects the characters between their
brackets as they stood, blanks included. Diagnostics quote that text. Objects
keep their members in order, repeated keys included.

`Json.text` gives the text back; the constructors `Json.ofString`,
`Json.ofArray` and `Json.ofObject` build values whose text is the compact
writing, so that printing a value is reading off its text.
-/
import ModelGraph.Text.Hex

namespace ModelGraph

inductive Json where
  | null
  | bool (value : Bool)
  | number (literal : String)
  | string (literal value : String)
  | array (text : String) (items : List Json)
  | object (text : String) (members : List (String × Json))
  deriving Repr, Inhabited, BEq

namespace Json

def text : Json → String
  | null => "null"
  | bool true => "true"
  | bool false => "false"
  | number literal => literal
  | string literal _ => literal
  | array text _ => text
  | object text _ => text

/-- The characters a character of a string is written as. The three characters
that mean something in markup, and the two line separators of Unicode, are
escaped along with the control characters. -/
def escape (c : Char) : List Char :=
  match c with
  | '"' => ['\\', '"']
  | '\\' => ['\\', '\\']
  | '\n' => ['\\', 'n']
  | '\r' => ['\\', 'r']
  | '\t' => ['\\', 't']
  | '\x08' => ['\\', 'b']
  | '\x0c' => ['\\', 'f']
  | c =>
    if c.toNat < 32 || c = '<' || c = '>' || c = '&' || c.toNat = 0x2028 || c.toNat = 0x2029 then
      '\\' :: 'u' :: hex 4 c.toNat
    else [c]

def quote (s : String) : String :=
  String.ofList ('"' :: s.toList.flatMap escape ++ ['"'])

def ofString (s : String) : Json := .string (quote s) s

def ofInt (n : Int) : Json := .number (toString n)

def ofNat (n : Nat) : Json := .number (toString n)

def ofArray (items : List Json) : Json :=
  .array ("[" ++ ",".intercalate (items.map text) ++ "]") items

def ofObject (members : List (String × Json)) : Json :=
  .object ("\x7b" ++ ",".intercalate (members.map fun (k, v) => quote k ++ ":" ++ v.text) ++ "\x7d") members

def members : Json → List (String × Json)
  | object _ ms => ms
  | _ => []

def items : Json → List Json
  | array _ xs => xs
  | _ => []

def get? (j : Json) (key : String) : Option Json :=
  (j.members.reverse.find? fun m => m.1 = key).map (·.2)

mutual

/-- How deep arrays and objects are nested in a value. -/
def depth : Json → Nat
  | .array _ js => depths js + 1
  | .object _ ms => memberDepths ms + 1
  | _ => 0

def depths : List Json → Nat
  | [] => 0
  | j :: js => max (depth j) (depths js)

def memberDepths : List (String × Json) → Nat
  | [] => 0
  | (_, j) :: ms => max (depth j) (memberDepths ms)

end

end Json
end ModelGraph
