/-
# Model documents

A document holds the declarations of a model, sorted by kind; within a kind they
keep the order of the text. An element whose tag is not known here is kept whole
for the extensions.
-/
import ModelGraph.Document.Domain
import ModelGraph.Document.Mapping
import ModelGraph.Document.Runtime
import ModelGraph.Json.Reader

namespace ModelGraph

open Decode (Decoded Slot)

structure ExtensionDecl where
  header : Header := {}
  tag : String := ""
  raw : Json := .null
  deriving Repr, BEq, Inhabited

structure Document where
  tag : String := ""
  sections : List SectionIndexDecl := []
  profiles : List ProfileDecl := []
  classes : List ClassDecl := []
  enumerations : List EnumerationDecl := []
  associations : List AssociationDecl := []
  functions : List FunctionDecl := []
  measures : List MeasureDecl := []
  mappings : List MappingDecl := []
  connections : List ConnectionElementDecl := []
  runtimes : List RuntimeElementDecl := []
  extensions : List ExtensionDecl := []
  deriving Repr, Inhabited

namespace Document

inductive Fault where
  | malformed
  | undecodable (fault : Decode.Fault)
  | untagged (index : Nat)
  deriving Repr, BEq, DecidableEq

def Fault.message : Fault → String
  | malformed => "failed to parse model JSON: invalid character in the text"
  | undecodable fault => "failed to parse model JSON: " ++ fault.message
  | untagged index =>
    "failed to parse model JSON: elements[" ++ toString index ++
      "]: element is missing its _type tag"

def elementCount (d : Document) : Nat :=
  d.profiles.length + d.classes.length + d.enumerations.length + d.associations.length +
    d.functions.length + d.measures.length + d.mappings.length + d.connections.length +
    d.runtimes.length + d.extensions.length

structure Outline where
  tag : String := ""
  elements : List Json := []

def Outline.fields : List (Slot Outline) :=
  [.text "_type" fun v o => { o with tag := v },
   .list "elements" .raw fun v o => { o with elements := v }]

def Outline.decoder : Decoder Outline := .record Outline.fields {}

def tagOf (j : Json) : Decoded String := Decoder.tag.decode j

def addTagged (d : Document) (tag : String) (j : Json) : Decoded Document :=
  match tag with
  | "sectionIndex" =>
    (SectionIndexDecl.decoder.decode j).map fun v => { d with sections := d.sections ++ [v] }
  | "profile" =>
    (ProfileDecl.decoder.decode j).map fun v => { d with profiles := d.profiles ++ [v] }
  | "class" =>
    (ClassDecl.decoder.decode j).map fun v => { d with classes := d.classes ++ [v] }
  | "Enumeration" =>
    (EnumerationDecl.decoder.decode j).map
      fun v => { d with enumerations := d.enumerations ++ [v] }
  | "association" =>
    (AssociationDecl.decoder.decode j).map
      fun v => { d with associations := d.associations ++ [v] }
  | "function" =>
    (FunctionDecl.decoder.decode j).map fun v => { d with functions := d.functions ++ [v] }
  | "measure" =>
    (MeasureDecl.decoder.decode j).map fun v => { d with measures := d.measures ++ [v] }
  | "mapping" =>
    (MappingDecl.decoder.decode j).map fun v => { d with mappings := d.mappings ++ [v] }
  | "connection" =>
    (ConnectionElementDecl.decoder.decode j).map
      fun v => { d with connections := d.connections ++ [v] }
  | "runtime" =>
    (RuntimeElementDecl.decoder.decode j).map
      fun v => { d with runtimes := d.runtimes ++ [v] }
  | tag =>
    (Header.decoder.decode j).map
      fun header => { d with extensions := d.extensions ++ [{ header, tag, raw := j }] }

def addElement (d : Document) (index : Nat) (j : Json) : Except Fault Document :=
  let place := "elements[" ++ toString index ++ "]: "
  match tagOf j with
  | .error fault => .error (.undecodable (fault.within place))
  | .ok tag =>
    if tag = "" then .error (.untagged index)
    else
      match addTagged d tag j with
      | .ok d' => .ok d'
      | .error fault => .error (.undecodable (fault.within (place ++ tag ++ ": ")))

def addElements (d : Document) (index : Nat) : List Json → Except Fault Document
  | [] => .ok d
  | j :: rest =>
    match addElement d index j with
    | .ok d' => addElements d' (index + 1) rest
    | .error fault => .error fault

def ofJson (j : Json) : Except Fault Document :=
  match Outline.decoder.decode j with
  | .error fault => .error (.undecodable (fault.within ""))
  | .ok outline => addElements { tag := outline.tag } 0 outline.elements

def read (text : String) : Except Fault Document :=
  match Json.read text with
  | some j => ofJson j
  | none => .error .malformed

end Document
end ModelGraph
