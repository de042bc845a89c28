/-
# Models

A model holds its elements in the order in which they were declared, a tree of
packages with their paths, and what each element imports. Look-ups that find
nothing among the elements of the model go on to the library.
-/
import ModelGraph.Library
import ModelGraph.Options
import ModelGraph.Package
import ModelGraph.Report

namespace ModelGraph

structure Model where
  options : Options := {}
  packages : Package String := .root
  elements : List Element := []
  /-- What the section of an element imports. Of several entries the last holds. -/
  imports : List (String × List String) := []
  warnings : List Finding := []

namespace Model

def declared? (m : Model) (path : String) : Option Element :=
  m.elements.find? fun e => e.path = path

def element? (m : Model) (path : String) : Option Element :=
  match m.declared? path with
  | some e => some e
  | none => Library.find? path

/-- Whether an element of the library stands in for a missing one of a category. -/
def fromLibrary (c : Category) (e : Element) : Bool :=
  e.isOf c && match c with
    | .association | .mapping | .connection | .runtime => false
    | _ => true

/-- The element of a category with a path, if there is one. The class of packages
also goes by its short name. -/
def find? (m : Model) (c : Category) (path : String) : Option Element :=
  match (m.declared? path).filter (·.isOf c) with
  | some e => some e
  | none =>
    (Library.find? (if path = "Package" then Library.packageClass.path else path)).filter
      (fromLibrary c)

def lookup (m : Model) (c : Category) (path : String) (span : Span) : Result Element :=
  match m.find? c path with
  | some e => .ok e
  | none => failAt span (.unknown c path)

def update (m : Model) (path : String) (f : Element → Element) : Model :=
  { m with elements := m.elements.map fun e => if e.path = path then f e else e }

def setContent (m : Model) (path : String) (content : ElementContent) : Model :=
  m.update path fun e => { e with content }

def class? (m : Model) (path : String) : Option ClassContent :=
  (m.element? path).bind Element.class?

def updateClass (m : Model) (path : String) (f : ClassContent → ClassContent) : Model :=
  m.update path fun e => match e.content with
    | .classType c => { e with content := .classType (f c) }
    | _ => e

def mapping? (m : Model) (path : String) : Option Mapping :=
  match m.declared? path with
  | some { content := .mapping x, .. } => some x
  | _ => none

def warn (m : Model) (rule : String) (span : Span) (path message : String) : Model :=
  { m with
    warnings := m.warnings ++ [{ rule, severity := .warning, message, path, span }] }

def packageNames (path : String) : List String := if path = "" then [] else Path.split path

/-- Creates a package and those it stands in. What was created before a failure
stays. -/
def ensurePackage (m : Model) (path : String) : Model × Option Problem :=
  let (packages, problem) := m.packages.ensure (packageNames path)
  ({ m with packages }, problem)

def register (m : Model) (package name : String) (span : Span) (content : ElementContent)
    (annotations : Annotations := {}) : Result Model :=
  if package = "" then failAt span .packageRequired
  else
    let path := package ++ Path.separator ++ name
    match m.packages.ensure (packageNames package) with
    | (_, some problem) => failAt span problem
    | (packages, none) =>
      if (m.element? path).isSome then failAt span (.duplicateElement path)
      else .ok
        { m with
          packages := Package.place (.leaf name path) packages (packageNames package)
          elements := m.elements ++ [{ name, path, span, annotations, content }] }

def importsOf (m : Model) (path : String) : List String :=
  match m.imports.reverse.find? fun i => i.1 = path with
  | some i => i.2
  | none => []

def pathsOf (m : Model) (c : Category) : List String :=
  ((m.elements.filter (·.isOf c)).map (·.path)).mergeSort fun a b => a ≤ b

end Model
end ModelGraph
