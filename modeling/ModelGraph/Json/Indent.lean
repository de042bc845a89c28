/-
# JSON on several lines

A value written with one member or item a line, two blanks for each level.
Empty arrays and objects stay on their line.
-/
import ModelGraph.Json.Basic

namespace ModelGraph
namespace Json

def newline (level : Nat) : String := "\n" ++ String.ofList (List.replicate (2 * level) ' ')

mutual

def indentedAt (level : Nat) : Json → String
  | array _ [] => "[]"
  | array _ (j :: js) =>
    "[" ++ newline (level + 1) ++ indentedAt (level + 1) j ++ indentedItems (level + 1) js ++
      newline level ++ "]"
  | object _ [] => "\x7b\x7d"
  | object _ (m :: ms) =>
    "\x7b" ++ newline (level + 1) ++ quote m.1 ++ ": " ++ indentedAt (level + 1) m.2 ++
      indentedMembers (level + 1) ms ++ newline level ++ "\x7d"
  | j => j.text

def indentedItems (level : Nat) : List Json → String
  | [] => ""
  | j :: js => "," ++ newline level ++ indentedAt level j ++ indentedItems level js

def indentedMembers (level : Nat) : List (String × Json) → String
  | [] => ""
  | (key, j) :: ms =>
    "," ++ newline level ++ quote key ++ ": " ++ indentedAt level j ++ indentedMembers level ms

end

def indented (j : Json) : String := indentedAt 0 j

end Json
end ModelGraph
