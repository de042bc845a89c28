/-
# Checks of mappings

What is checked once all mappings are linked: no mapping includes itself, source values
of an enumeration mapping are of one kind, ids are distinct over all that a mapping
sees, a class with several class mappings has one root, and no property mapping creates
the instance that it stands for.
-/
import ModelGraph.Mapping.Link

namespace ModelGraph

def firstRepeated? [BEq α] : List α → (seen : List α) → Option α
  | [], _ => none
  | a :: as, seen => if seen.contains a then some a else firstRepeated? as (a :: seen)

def writtenIncludes (mappings : List MappingDecl) (path : String) : List String :=
  let paths := mappings.map (·.header.path)
  match mappings.find? fun d => d.header.path = path with
  | some d => (d.includes.map (·.path)).filter paths.contains
  | none => []

def checkIncludeCycles (mappings : List MappingDecl) : Result Unit :=
  let paths := mappings.map (·.header.path)
  match Search.firstCycle? (writtenIncludes mappings) (mappings.length + 1) paths with
  | some (start :: rest) =>
    match mappings.find? fun d => d.header.path = start with
    | some d => failAt d.header.span (.includeCycle (start :: rest))
    | none => .ok ()
  | _ => .ok ()

namespace Model

def includeOrder (m : Model) (path : String) : List String :=
  Search.postorder m.includesOf (m.elements.length + 1) path

def setIds (m : Model) (path : String) : List String := (m.setsOf path).map fun s => s.2.id

def enumMappingIds (m : Model) (path : String) : List String :=
  match m.mapping? path with
  | some x => x.enumMappings.map (·.name)
  | none => []

def repeatedId? (m : Model) (ids : String → List String) (path : String) : Option String :=
  firstRepeated? ((m.includeOrder path).flatMap ids) []

def unknownIdRule : String := "mapping-unknown-id"

def newInstanceRule : String := "mapping-new-instance"

/-- Warns about the ids of a property mapping that are not among the known ones. -/
def warnUnknownIds (path : String) (known : List String) (m : Model) (p : PropertyMapping) : Model :=
  ([p.sourceId, p.targetId].filter fun id => id != "" && !known.contains id).foldl
    (fun m id => m.warn unknownIdRule p.span path
      ("Error '" ++ id ++ "' can't be found in the mapping " ++ path))
    m

/-- Checks the ids that a mapping sees and warns about unknown ones. -/
def checkIds (path : String) (span : Span) : Build Unit := do
  let m ← get
  match m.repeatedId? m.setIds path with
  | some id => Build.fail span (.duplicateSetId id path)
  | none =>
    let known := (m.includeOrder path).flatMap m.setIds
    let properties := (m.setsOf path).flatMap fun s => s.2.base.properties
    set (properties.foldl (warnUnknownIds path known) m)
    match m.repeatedId? m.enumMappingIds path with
    | some id => Build.fail span (.duplicateEnumMappingId id path)
    | none => return

/-- Fails if a class has several class mappings in a mapping and not one root. -/
def checkRoots (m : Model) (path : String) (span : Span) : Result Unit :=
  let sets := (m.setsOf path).map fun s => s.2.base
  (distinct (sets.map fun b => b.className.path)).forM fun name =>
    let mine := sets.filter fun b => b.className.path = name
    let roots := (mine.filter (·.root)).length
    if mine.length = 1 || roots = 1 then .ok ()
    else failAt span (.rootCount name mine.length roots)

/-- Checks the new instances in the expression of a property mapping. One of the type of
the whole statement is an error, any other is warned about. -/
def checkNew (path : String) (span : Span) (p : PropertyMapping) : Build Unit :=
  let place := "property '" ++ p.property.name ++ "' of mapping '" ++ path ++ "'"
  ((p.transform.map Expr.lambdaBody).getD []).forM fun statement =>
    (statement.callsOf "new").forM fun e => do
      if e.raw.same statement.raw then Build.fail span (.newInTransform place)
      modify fun m => m.warn newInstanceRule p.span path
        ("The new function/operator(^) should not be used in property mappings, violated in " ++
          place)

def checkNewInstances (path : String) (span : Span) : Build Unit := do
  let m ← get
  (m.setsOf path).forM fun s => match s.2 with
    | .instances b _ _ => b.properties.forM (checkNew path span)
    | _ => return

end Model

def checkMappings (mappings : List MappingDecl) : Build Unit := do
  checkIncludeCycles mappings
  (mappings.forM fun d => d.enumMappings.forM (·.checkSources) : Result Unit)
  mappings.forM fun d => Model.checkIds d.header.path d.header.span
  let m ← get
  if m.options.roots then
    (mappings.forM fun d => m.checkRoots d.header.path d.header.span : Result Unit)
  mappings.forM fun d => Model.checkNewInstances d.header.path d.header.span

end ModelGraph
