/-
# Sections, profiles and enumerations

Declarations that are complete as soon as they are made. A section index says what
each of the elements that it lists imports.
-/
import ModelGraph.Build.Monad

namespace ModelGraph

def SectionDecl.section (s : SectionDecl) : Section :=
  { reader := s.parserName, imports := s.imports, elements := s.elements, span := s.span }

def SectionIndexDecl.declare (d : SectionIndexDecl) : Build Unit := do
  Build.register d.header (.sectionIndex (d.sections.map (·.section)))
  modify fun m =>
    { m with
      imports := m.imports ++ d.sections.flatMap fun s => s.elements.map fun e => (e, s.imports) }

def ProfileDecl.declare (d : ProfileDecl) : Build Unit :=
  Build.register d.header (.profile d.stereotypes d.tags)

def EnumerationDecl.declare (d : EnumerationDecl) : Build Unit := do
  let supers := [(Library.any, d.header.span)]
  Build.register d.header (.enumeration supers [])
  let c ← Build.context d.header.path
  let annotations ← c.annotations d.annotations
  let values ← d.values.mapM fun v => do
    return { name := v.value, annotations := ← c.annotations v.annotations, span := v.span }
  modify fun m => m.update d.header.path fun e =>
    { e with annotations, content := .enumeration supers values }

end ModelGraph
