/-
# Schemas of JSON values

A schema is a rule on a JSON value. Rules are put together: all of a list, one or
several alternatives, a rule under a condition, rules for members and items. A rule may
also refer to a schema by name.

`Schema.check` gives the violations of a schema by a value. Among the rules of one list
the kind and the allowed values come first, and where one of them is broken the others
are not looked at.
-/
import ModelGraph.Json.Basic
import ModelGraph.Json.Number
import ModelGraph.Schema.Violation
import ModelGraph.Text.Path

namespace ModelGraph

inductive Schema where
  | kind (kinds : List JsonKind)
  | oneOfTexts (texts : List String)
  | ref (name : String)
  | minLength (least : Nat)
  | minItems (least : Nat)
  | minimum (least : Int)
  | required (names : List String)
  | members (rules : List (String × Schema))
  | only (names : List String)
  | items (rule : Schema)
  | all (rules : List Schema)
  | any (rules : List Schema)
  | when (condition rule : Schema)
  deriving Repr, Inhabited

namespace Json

def member? (name : String) : Json → Option Json
  | .object _ ms => (ms.reverse.find? fun m => m.1 = name).map (·.2)
  | _ => none

def memberNames : Json → List String
  | .object _ ms => distinct (ms.map (·.1))
  | _ => []

def itemList : Json → List Json
  | .array _ js => js
  | _ => []

def kind : Json → JsonKind
  | .null => .null
  | .bool _ => .boolean
  | .number _ => .number
  | .string _ _ => .string
  | .array _ _ => .array
  | .object _ _ => .object

def whole? : Json → Option Int
  | .number literal => (Number.double? literal).bind Number.whole?
  | _ => none

def isOf (j : Json) (k : JsonKind) : Bool :=
  j.kind = k || (k = .integer && j.whole?.isSome)

mutual

/-- Whether every number in a value has a double near it. -/
def inRange : Json → Bool
  | .number literal => (Number.double? literal).isSome
  | .array _ js => allInRange js
  | .object _ ms => membersInRange ms
  | _ => true

def allInRange : List Json → Bool
  | [] => true
  | j :: js => inRange j && allInRange js

def membersInRange : List (String × Json) → Bool
  | [] => true
  | (_, j) :: ms => inRange j && membersInRange ms

end

end Json

namespace Schema

/-- Whether a broken rule hides the rules after it. -/
def isGate : Schema → Bool
  | kind _ => true
  | oneOfTexts _ => true
  | _ => false

def grouped (place : List String) (vs : List Violation) : List Violation :=
  match vs with
  | [] => []
  | [v] => [v]
  | vs => [.group place vs]

mutual

/-- The violations of a schema by a value at a place. `onRef` checks a schema given by
name. -/
def checkWith (onRef : String → List String → Json → List Violation) :
    Schema → List String → Json → List Violation
  | kind kinds, place, j =>
    if kinds.any j.isOf then [] else [.ofBreach place (.kind j.kind kinds)]
  | oneOfTexts texts, place, j =>
    match j with
    | .string _ s => if texts.contains s then [] else [.ofBreach place (.value texts)]
    | _ => [.ofBreach place (.value texts)]
  | ref name, place, j => onRef name place j
  | minLength least, place, j =>
    match j with
    | .string _ s =>
      if s.length < least then [.ofBreach place (.minLength s.length least)] else []
    | _ => []
  | minItems least, place, j =>
    match j with
    | .array _ js =>
      if js.length < least then [.ofBreach place (.minItems js.length least)] else []
    | _ => []
  | minimum least, place, j =>
    match j.whole? with
    | some n =>
      if n < least then
        [.ofBreach place (.minimum (Number.shown n) (Number.shown least))]
      else []
    | none => []
  | required names, place, j =>
    match j with
    | .object _ _ =>
      match names.filter fun n => (j.member? n).isNone with
      | [] => []
      | missing => [.ofBreach place (.missing missing)]
    | _ => []
  | members rules, place, j => checkMembers onRef rules place j
  | only names, place, j =>
    match j.memberNames.filter fun n => !names.contains n with
    | [] => []
    | others => [.ofBreach place (.additional others)]
  | items rule, place, j =>
    j.itemList.zipIdx.flatMap fun (item, i) =>
      checkWith onRef rule (place ++ [toString i]) item
  | all rules, place, j => grouped place (checkAll onRef rules place j)
  | any rules, place, j => checkAny onRef rules place j []
  | when condition rule, place, j =>
    if (checkWith onRef condition place j).isEmpty then checkWith onRef rule place j else []

def checkMembers (onRef : String → List String → Json → List Violation) :
    List (String × Schema) → List String → Json → List Violation
  | [], _, _ => []
  | (name, rule) :: rules, place, j =>
    (match j.member? name with
      | some v => checkWith onRef rule (place ++ [name]) v
      | none => []) ++ checkMembers onRef rules place j

/-- The violations of rules in a list. A broken gate hides the rules after it. -/
def checkAll (onRef : String → List String → Json → List Violation) :
    List Schema → List String → Json → List Violation
  | [], _, _ => []
  | rule :: rules, place, j =>
    let found := checkWith onRef rule place j
    if rule.isGate && !found.isEmpty then found else found ++ checkAll onRef rules place j

/-- The violations of all alternatives if none holds. `found` are those of the
alternatives before. -/
def checkAny (onRef : String → List String → Json → List Violation) :
    List Schema → List String → Json → List Violation → List Violation
  | [], place, _, found => grouped place found
  | rule :: rules, place, j, found =>
    match checkWith onRef rule place j with
    | [] => []
    | vs => checkAny onRef rules place j (found ++ vs)

end

abbrev Definitions : Type := List (String × Schema)

/-- The violations of a schema given by name, through at most `fuel` references. -/
def checkRef (definitions : Definitions) :
    (fuel : Nat) → String → List String → Json → List Violation
  | 0, _, _, _ => []
  | fuel + 1, name, place, j =>
    match definitions.lookup name with
    | some s => checkWith (checkRef definitions fuel) s place j
    | none => []

/-- The violations of a schema by a value. References at one place of the value do not
come back to one name, so that their number is bounded by that of the names at each
depth. -/
def check (definitions : Definitions) (s : Schema) (j : Json) : List Violation :=
  checkWith (checkRef definitions ((definitions.length + 1) * (j.depth + 1))) s [] j

end Schema
end ModelGraph
