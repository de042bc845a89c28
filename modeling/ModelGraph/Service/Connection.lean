/-
# Connections

A connection to model instances reaches the model store only; a pointer stands for the
connection that it names, which has to be built before.
-/
import ModelGraph.Relational.Connection

namespace ModelGraph
namespace ConnectionDecl

def jsonTag : String := "JsonModelConnection"

def xmlTag : String := "XmlModelConnection"

def chainTag : String := "ModelChainConnection"

def pointerTag : String := "connectionPointer"

def checkModelStore (d : ConnectionDecl) : Result Unit :=
  if d.element = "" || d.element = modelStorePath then .ok ()
  else failAt (d.elementSpan.orElse d.span) (.modelStoreExpected modelStorePath d.element)

def build (d : ConnectionDecl) (c : Context) : Result Connection := do
  if d.tag = jsonTag || d.tag = xmlTag then
    d.checkModelStore
    let t ← c.resolveClass d.className d.span
    let kind := if d.tag = xmlTag then .xml t.path d.url else .json t.path d.url
    return { store := modelStorePath, span := d.span, kind }
  else if d.tag = chainTag then
    d.checkModelStore
    let mappings ← d.mappings.mapM fun path => c.resolve .mapping path d.span
    return { store := modelStorePath, span := d.span, kind := .chain (mappings.map (·.path)) }
  else if d.tag = pointerTag then
    let e ← c.resolve .connection d.connection d.span
    match e.content with
    | .connection (some found) => return found
    | _ => failAt d.span (.connectionNotBuilt e.path)
  else if d.tag = Relational.connectionTag &&
      c.model.options.extensions.contains .relational then
    Relational.buildConnection c d
  else throw (.unsupported (.connection d.tag))

end ConnectionDecl

namespace ConnectionElementDecl

def declare (d : ConnectionElementDecl) : Build Unit := Build.register d.header (.connection none)

def buildStep (d : ConnectionElementDecl) : Build Unit := do
  let path := d.header.path
  let c ← Build.context path
  let value ← d.value.build c
  modify fun m => m.setContent path (.connection (some value))

end ConnectionElementDecl
end ModelGraph
