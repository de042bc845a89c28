/-
# Expression nodes

An expression of a document is a tree of nodes. A node is flat: its tag says
which of its attributes mean something. The items of a `collection` are nodes;
every other tag may carry a list of literal values in their place. A graph
fetch tree may stand inside a `classInstance`, which is taken off when the node
is decoded.
-/
import ModelGraph.Document.Basic

namespace ModelGraph

open Decode (Decoded Slot)

structure NodeAttrs where
  tag : String := ""
  span : Span := {}
  bounds : Option Bounds := none
  value : Option Json := none
  name : String := ""
  className : String := ""
  typeExpr : Option TypeExpr := none
  function : String := ""
  control : String := ""
  property : String := ""
  path : String := ""
  subType : String := ""
  aliasName : String := ""
  instanceType : String := ""
  literals : List Json := []
  deriving Repr, BEq, Inhabited

inductive Node where
  | mk (attrs : NodeAttrs) (parameters body values subTrees : List Node)
  deriving Repr, BEq, Inhabited

namespace Node

def stringTag : String := "string"
def integerTag : String := "integer"
def floatTag : String := "float"
def decimalTag : String := "decimal"
def booleanTag : String := "boolean"
def dateTimeTag : String := "dateTime"
def strictDateTag : String := "strictDate"
def latestDateTag : String := "latestDate"
def collectionTag : String := "collection"
def variableTag : String := "var"
def functionTag : String := "func"
def propertyTag : String := "property"
def lambdaTag : String := "lambda"
def elementTag : String := "packageableElementPtr"
def enumValueTag : String := "enumValue"
def classInstanceTag : String := "classInstance"
def rootTreeTag : String := "rootGraphFetchTree"
def propertyTreeTag : String := "propertyGraphFetchTree"

def attrs : Node → NodeAttrs
  | mk a _ _ _ _ => a

def parameters : Node → List Node
  | mk _ ps _ _ _ => ps

def body : Node → List Node
  | mk _ _ b _ _ => b

def values : Node → List Node
  | mk _ _ _ vs _ => vs

def subTrees : Node → List Node
  | mk _ _ _ _ ts => ts

def tag (n : Node) : String := n.attrs.tag

def span (n : Node) : Span := n.attrs.span

def empty : Node := .mk {} [] [] [] []

def typePath (n : Node) : String := TypeExpr.pathOr n.attrs.typeExpr n.attrs.className

def literalTags : List String :=
  [stringTag, integerTag, floatTag, decimalTag, booleanTag, dateTimeTag, strictDateTag, latestDateTag]

def isLiteral (n : Node) : Bool := literalTags.contains n.tag

def isLambda (n : Node) : Bool := n.tag = lambdaTag

def fields : List (Slot NodeAttrs) :=
  [.text "_type" fun v a => { a with tag := v },
   Span.field "sourceInformation" fun v a => { a with span := v },
   .optional "multiplicity" Bounds.decoder fun v a => { a with bounds := v },
   .raw "value" fun v a => { a with value := some v },
   .text "name" fun v a => { a with name := v },
   .text "class" fun v a => { a with className := v },
   .optional "genericType" TypeExpr.decoder fun v a => { a with typeExpr := v },
   .text "function" fun v a => { a with function := v },
   .text "fControl" fun v a => { a with control := v },
   .text "property" fun v a => { a with property := v },
   .text "fullPath" fun v a => { a with path := v },
   .text "subType" fun v a => { a with subType := v },
   .text "alias" fun v a => { a with aliasName := v },
   .text "type" fun v a => { a with instanceType := v }]

inductive Branch where
  | parameters | body | subTrees | values | payload
  deriving Repr, BEq, DecidableEq

def branches : List (String × Branch) :=
  [("parameters", .parameters), ("body", .body), ("subTrees", .subTrees), ("values", .values),
   ("value", .payload)]

def branchFor (key : String) : Option Branch :=
  match branches.find? fun b => b.1 = key with
  | some b => some b.2
  | none => (branches.find? fun b => Decode.foldKey b.1 = Decode.foldKey key).map (·.2)

/-- A node while its members are read. How `values` and the payload are to be
read is known only when all of them have been seen, so the possible readings
are kept. -/
structure Draft where
  parameters : List Node := []
  body : List Node := []
  subTrees : List Node := []
  items : Decoded (List Node) := .ok []
  literals : Decoded (List Json) := .ok []
  payload : Decoded Node := .error .mismatch

def literalList : Json → Decoded (List Json)
  | .null => .ok []
  | .array _ items => .ok items
  | _ => .error .mismatch

/-- The tags of what may stand inside a class instance. -/
def isTreeTag (tag : String) : Bool := tag = rootTreeTag || tag = propertyTreeTag

/-- The node of a draft: `values` are read as the tag says, and the class
instance around a graph fetch tree is taken off. -/
def ofDraft (attrs : NodeAttrs) (d : Draft) : Decoded Node := do
  let items ←
    if attrs.tag = collectionTag then Decode.inside "collection values: " d.items
    else .ok []
  let literals ←
    if attrs.tag = collectionTag then .ok []
    else Decode.inside (attrs.tag ++ " values: ") d.literals
  if attrs.tag = classInstanceTag && isTreeTag attrs.instanceType then
    match Decode.inside ("classInstance " ++ attrs.instanceType ++ ": ") d.payload with
    | .error fault => .error fault
    | .ok (mk a ps b vs ts) =>
      let tag := if a.tag = "" then attrs.instanceType else a.tag
      .ok (mk { a with tag, span := a.span.orElse attrs.span } ps b vs ts)
  else .ok (mk { attrs with literals } d.parameters d.body items d.subTrees)

mutual

def decode : Json → Decoded Node
  | .null => .ok empty
  | .object _ ms => (decodeMembers ms {} false).bind (ofDraft (Decode.fill fields ms {}))
  | _ => .error (.nested "")

/-- Reads the sub-nodes among the members of a node in order, and checks the other
members. -/
def decodeMembers : List (String × Json) → Draft → (missed : Bool) → Decoded Draft
  | [], d, missed => if missed then .error (.nested "") else .ok d
  | (key, value) :: rest, d, missed =>
    match branchFor key with
    | some .payload =>
      decodeMembers rest { d with payload := decode value } missed
    | some .values =>
      decodeMembers rest { d with items := decodeList value, literals := literalList value } missed
    | some branch =>
      match decodeList value with
      | .ok nodes =>
        match branch with
        | .parameters => decodeMembers rest { d with parameters := nodes } missed
        | .body => decodeMembers rest { d with body := nodes } missed
        | _ => decodeMembers rest { d with subTrees := nodes } missed
      | .error .mismatch => decodeMembers rest d true
      | .error fault => .error fault
    | none =>
      match Decode.checkMember fields (key, value) with
      | .ok _ => decodeMembers rest d missed
      | .error .mismatch => decodeMembers rest d true
      | .error fault => .error fault

def decodeList : Json → Decoded (List Node)
  | .null => .ok []
  | .array _ items => decodeItems items
  | _ => .error .mismatch

def decodeItems : List Json → Decoded (List Node)
  | [] => .ok []
  | j :: rest =>
    match decode j with
    | .ok n => (decodeItems rest).map (n :: ·)
    | .error fault => .error fault

end

def decoder : Decoder Node where
  check j := (decode j).map fun _ => ()
  build js :=
    match js.getLast? with
    | some j => (decode j).toOption.getD empty
    | none => empty

def textMember (name value : String) : List (String × Json) :=
  if value = "" then [] else [(name, .ofString value)]

def listMember (name : String) (items : List Json) : List (String × Json) :=
  if items.isEmpty then [] else [(name, .ofArray items)]

def optionMember (name : String) (value : Option Json) : List (String × Json) :=
  match value with
  | some j => [(name, j)]
  | none => []

mutual

def encode : Node → Json
  | mk a parameters body values subTrees =>
    .ofObject <|
      [("_type", .ofString a.tag), ("sourceInformation", a.span.encode)] ++
      optionMember "multiplicity" (a.bounds.map Bounds.encode) ++
      optionMember "value" a.value ++
      textMember "name" a.name ++
      textMember "class" a.className ++
      optionMember "genericType" (a.typeExpr.map TypeExpr.encode) ++
      textMember "function" a.function ++
      textMember "fControl" a.control ++
      textMember "property" a.property ++
      listMember "parameters" (encodeAll parameters) ++
      listMember "body" (encodeAll body) ++
      textMember "fullPath" a.path ++
      listMember "subTrees" (encodeAll subTrees) ++
      textMember "subType" a.subType ++
      textMember "alias" a.aliasName ++
      textMember "type" a.instanceType ++
      (if values.isEmpty then listMember "values" a.literals
       else listMember "values" (encodeAll values))

def encodeAll : List Node → List Json
  | [] => []
  | n :: ns => encode n :: encodeAll ns

end

end Node
end ModelGraph
