/-
# Names in an element

An element refers to others by full path or by a short name. A short name is
looked for in the packages that are imported, some of which every element
imports. Found in one, it is that element; found in none, it is taken as a path;
found in several, it is ambiguous.
-/
import ModelGraph.Model

namespace ModelGraph

def specialNames : List String :=
  ["Boolean", "String", "Binary", "Date", "StrictDate", "DateTime", "LatestDate", "Number",
   "Float", "Decimal", "Integer", "Package"]

def commonImports : List String :=
  ["meta::pure::metamodel",
   "meta::pure::metamodel::type",
   "meta::pure::metamodel::type::generics",
   "meta::pure::metamodel::relationship",
   "meta::pure::metamodel::valuespecification",
   "meta::pure::metamodel::multiplicity",
   "meta::pure::metamodel::function",
   "meta::pure::metamodel::function::property",
   "meta::pure::metamodel::extension",
   "meta::pure::metamodel::import",
   "meta::pure::functions::date",
   "meta::pure::functions::string",
   "meta::pure::functions::collection",
   "meta::pure::functions::meta",
   "meta::pure::functions::constraints",
   "meta::pure::functions::lang",
   "meta::pure::functions::boolean",
   "meta::pure::functions::tools",
   "meta::pure::functions::io",
   "meta::pure::functions::math",
   "meta::pure::functions::asserts",
   "meta::pure::functions::test",
   "meta::pure::functions::multiplicity",
   "meta::pure::router",
   "meta::pure::service",
   "meta::pure::tds",
   "meta::pure::tools",
   "meta::pure::profiles"]

/-- An element of a model, as a place to look names up from. -/
structure Context where
  model : Model
  element : String
  imports : List String

namespace Context

def of (m : Model) (path : String) : Context :=
  { model := m
    element := path
    imports := distinct (commonImports ++ m.importsOf path) }

def search (c : Context) (path : String) (span : Span) (get : String → Result α) : Result α :=
  if specialNames.contains path || Path.isQualified path then get path
  else
    let hits := c.imports.filterMap fun package =>
      let full := package ++ Path.separator ++ path
      match get full with
      | .ok a => some (full, a)
      | .error _ => none
    match hits with
    | [] => get path
    | [(_, a)] => .ok a
    | hits => failAt span (.ambiguous path ((hits.map (·.1)).mergeSort fun a b => a ≤ b))

def resolve (c : Context) (category : Category) (path : String) (span : Span) :
    Result Element :=
  c.search path span fun p => c.model.lookup category p span

def asType (e : Element) : TypeRef := e.typeRef?.getD default

def resolveType (c : Context) (path : String) (span : Span) : Result TypeRef :=
  (c.resolve .type path span).map asType

def resolveClass (c : Context) (path : String) (span : Span) : Result TypeRef :=
  (c.resolve .classType path span).map asType

def resolveGeneric (c : Context) (path : String) (span : Span) : Result GenericType :=
  (c.resolveType path span).map GenericType.ofRef

def packageClass : Element := Library.classElement Library.packageClass [Library.any]

def resolveElement (c : Context) (path : String) (span : Span) : Result Element :=
  c.search path span fun p =>
    if p = "Package" then .ok packageClass
    else match c.model.element? p with
      | some e => .ok e
      | none =>
        if Library.hasPackage p then .ok packageClass else failAt span (.unknownElement p)

def enumValues (e : Element) : List EnumValue :=
  match e.content with
  | .enumeration _ values => values
  | _ => []

def enumValue (e : Element) (name : String) (span : Span) : Result EnumValue :=
  match (enumValues e).find? fun v => v.name = name with
  | some v => .ok v
  | none => failAt span (.unknownEnumValue name e.path)

/-- The value of the enumeration that a name stands for: the enumeration's path and
the value. -/
def resolveEnumValue (c : Context) (path name : String) (enumSpan span : Span) :
    Result (String × EnumValue) := do
  let e ← c.resolve .enumeration path enumSpan
  let v ← enumValue e name span
  return (e.path, v)

def stereotypesOf (e : Element) : List ProfileValue :=
  match e.content with
  | .profile stereotypes _ => stereotypes
  | _ => []

def tagsOf (e : Element) : List ProfileValue :=
  match e.content with
  | .profile _ tags => tags
  | _ => []

def resolveStereotype (c : Context) (ref : ProfileRef) : Result ProfileEntry := do
  let profile ← c.resolve .profile ref.profile ref.profileSpan
  if (stereotypesOf profile).any fun s => s.value = ref.value then
    return { profile := profile.path, value := ref.value }
  else failAt ref.span (.unknownStereotype ref.value profile.path)

def resolveTag (c : Context) (ref : ProfileRef) : Result ProfileEntry := do
  let profile ← c.resolve .profile ref.profile ref.profileSpan
  if (tagsOf profile).any fun t => t.value = ref.value then
    return { profile := profile.path, value := ref.value }
  else failAt ref.span (.unknownTag ref.value profile.path)

def annotations (c : Context) (decls : AnnotationDecls) : Result Annotations := do
  let stereotypes ← decls.stereotypes.mapM c.resolveStereotype
  let taggedValues ← decls.taggedTexts.mapM fun t => do
    let tag ← c.resolveTag t.tag
    return { tag, value := t.value, span := t.span }
  return { stereotypes, taggedValues }

end Context
end ModelGraph
