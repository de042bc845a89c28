/-
# Compiling expressions

Nodes of a document become typed expressions. A call is compiled against each of
its candidates in turn until one accepts the arguments; lambdas among them are
compiled anew for each, since the candidate says how their parameters are typed. A
property applied to other than exactly one value is mapped over the values.
-/
import ModelGraph.Expression.Candidate
import ModelGraph.Expression.Literal
import ModelGraph.Expression.Navigation

namespace ModelGraph

inductive NodeForm where
  | literal | var | call | property | lambda | collection | element | enumValue | tree
  | branch | classInstance | unknown
  deriving Repr, BEq, DecidableEq

def NodeAttrs.form (a : NodeAttrs) : NodeForm :=
  if Node.literalTags.contains a.tag then .literal
  else if a.tag = Node.variableTag then .var
  else if a.tag = Node.functionTag then .call
  else if a.tag = Node.propertyTag then .property
  else if a.tag = Node.lambdaTag then .lambda
  else if a.tag = Node.collectionTag then .collection
  else if a.tag = Node.elementTag then .element
  else if a.tag = Node.enumValueTag then .enumValue
  else if a.tag = Node.rootTreeTag then .tree
  else if a.tag = Node.propertyTreeTag then .branch
  else if a.tag = Node.classInstanceTag then .classInstance
  else .unknown

def NodeAttrs.typePath (a : NodeAttrs) : String := TypeExpr.pathOr a.typeExpr a.className

namespace Context

mutual

def resolveArguments (c : Context) : TypeExpr → Result (List GenericType)
  | .mk _ args _ => c.resolveAll args

def resolveAll (c : Context) : List TypeExpr → Result (List GenericType)
  | [] => .ok []
  | t :: ts => do
    let g ← c.resolveGeneric t.raw.path t.raw.span
    let args ← c.resolveArguments t
    let rest ← c.resolveAll ts
    return .mk g.raw args :: rest

end

def resolveTyped (c : Context) (path : String) (expr : Option TypeExpr) (span : Span) :
    Result GenericType := do
  let g ← c.resolveGeneric path span
  match expr with
  | none => return g
  | some t => return .mk g.raw (← c.resolveArguments t)

def parameter (c : Context) (a : NodeAttrs) : Result Param := do
  let span := match a.typeExpr with
    | some t => t.raw.span.orElse a.span
    | none => a.span
  let type ← c.resolveTyped a.typePath a.typeExpr span
  let multiplicity := match a.bounds with
    | some b => .ofBounds b
    | none => .one
  return { name := a.name, type, multiplicity, span := a.span }

def isPackage (c : Context) (path : String) : Bool :=
  let own := path != "" && match c.model.packages.find? (Path.split path) with
    | some p => p.isFolder
    | none => false
  own || (path != "Package" && Library.hasPackage path)

end Context

namespace Expression

/-- A lambda among the arguments of a call: compiled once the types of its parameters
and the dates of the first are known. -/
abbrev LambdaBuilder : Type := List Typed → Option (Dates Expr) → ExprM Expr

/-- The functions whose result holds values of their first argument, so that its dates
go on. -/
def datePreserving : List String :=
  ["filter", "sortBy", "sort", "take", "drop", "slice", "limit", "distinct",
   "removeDuplicates", "reverse", "first", "last", "at", "find", "toOne", "toOneMany",
   "subType", "cast", "graphFetch", "graphFetchChecked"]

def callDates (m : Model) (name : String) (args : List Expr) : ExprM (Option (Dates Expr)) := do
  match name, args with
  | "getAll", first :: date :: rest =>
    match first.type.args with
    | [] => return none
    | t :: _ =>
      match m.rawTemporal t.raw, rest with
      | .business, _ => return some { processing := none, business := some date }
      | .processing, _ => return some { processing := some date, business := none }
      | .both, second :: _ => return some { processing := some date, business := some second }
      | _, _ => return none
  | name, first :: _ =>
    if datePreserving.contains name then ExprM.datesOf first else return none
  | _, [] => return none

def bindLet (args : List Expr) : ExprM Unit := do
  match args with
  | .instances _ [.text name] :: value :: _ =>
    let dates ← ExprM.datesOf value
    .declare
      { param := { name, type := value.type, multiplicity := value.multiplicity,
                   span := value.span }
        dates }
    .lets name
  | _ => return ()

def apply (c : Context) (found : Candidate) (args : List Expr) (span : Span) : ExprM Expr := do
  let (type, multiplicity) := found.resultOf c.model args
  let dates ← if found.isNative then callDates c.model found.name args else pure none
  if found.name = "letFunction" then bindLet args
  return .call { type, multiplicity, span } found.name found.callee args "" dates []

def fill (found : Candidate) (all : List (Option Expr)) (dates : Option (Dates Expr)) :
    Nat → List (Option LambdaBuilder) → List (Option Expr) → ExprM (List Expr)
  | i, some build :: builders, _ :: args => do
    let e ← build (found.lambdaTypes all i) dates
    return e :: (← fill found all dates (i + 1) builders args)
  | i, none :: builders, some e :: args =>
    return e :: (← fill found all dates (i + 1) builders args)
  | _, _, _ => return []

/-- Tries candidates in turn. Those of another number of parameters are passed over.
`failed` is the last failure of a lambda, `attempted` the arguments last compiled in
full. -/
def tryEach (c : Context) (name check : String) (builders : List (Option LambdaBuilder))
    (args : List (Option Expr)) (dates : Option (Dates Expr)) (span : Span) :
    List Candidate → Option Failure → Option (List Expr) → ExprM Expr
  | [], failed, attempted =>
    match attempted, failed with
    | none, some f => .ofResult (.error f)
    | none, none => .fail span (.noMatch (renderCall name args))
    | some full, _ => .fail span (.noMatch (renderCall name (full.map some)))
  | found :: rest, failed, attempted =>
    if found.parameters.length != args.length then
      tryEach c name check builders args dates span rest failed attempted
    else do
      match ← ExprM.attempt (fill found args dates 0 builders args) with
      | .error f => tryEach c name check builders args dates span rest (some f) attempted
      | .ok full =>
        if found.accepts c.model full then
          match controlProblem? check found with
          | none => apply c found full span
          | some problem =>
            if c.model.options.strict then .fail span problem
            else
              .warn { rule := "function-matching", severity := .warning,
                      message := problem.message, path := c.element, span }
              apply c found full span
        else tryEach c name check builders args dates span rest failed (some full)

def dispatch (c : Context) (function control : String) (builders : List (Option LambdaBuilder))
    (args : List (Option Expr)) (span : Span) : ExprM Expr := do
  let (name, check) := callName function control
  let found ← .ofResult (c.candidates name span)
  let dates ← match args with
    | some first :: _ => ExprM.datesOf first
    | _ => pure none
  tryEach c name check builders args dates span found none none

def variableExpr (c : Context) (a : NodeAttrs) : ExprM Expr := do
  if a.typePath != "" then
    let p ← .ofResult (c.parameter a)
    .declare { param := p }
    return p.expr
  else
    match (← ExprM.scope).lookup? a.name with
    | none => .fail a.span (.unknownVariable a.name)
    | some b =>
      .opens [a.name]
      return .var { type := b.param.type, multiplicity := b.param.multiplicity, span := a.span }
        a.name

def lambdaParameter (c : Context) (a : NodeAttrs) (typed : Option Typed) : Result Param :=
  if a.typePath != "" then c.parameter a
  else match typed with
    | some (type, multiplicity) => .ok { name := a.name, type, multiplicity, span := a.span }
    | none => failAt a.span (.untypedParameter a.name)

/-- Brings the parameters of a lambda into scope. The first carries `dates` if it has
the type that the call gives it. -/
def bindParameters (c : Context) :
    List NodeAttrs → List Typed → Option (Dates Expr) → ExprM (List Param)
  | [], _, _ => return []
  | a :: rest, typed, dates => do
    let p ← .ofResult (lambdaParameter c a typed.head?)
    let own := match typed.head? with
      | some t => if p.type.raw.same t.1.raw then dates else none
      | none => none
    .declare { param := p, dates := own }
    return p :: (← bindParameters c rest typed.tail none)

/-- A lambda. Its body is compiled with the parameters in scope, and the names that it
takes from outside are noted. -/
def lambda (c : Context) (a : NodeAttrs) (parameters : List NodeAttrs)
    (compileBody : ExprM (List Expr)) (typed : List Typed) (dates : Option (Dates Expr)) :
    ExprM Expr := do
  let ((ps, body, last), inside) ← ExprM.inner do
    let ps ← bindParameters c parameters typed dates
    let body ← compileBody
    match body.getLast? with
    | none => .fail a.span .emptyLambda
    | some last => return (ps, body, last)
  let own := ps.map (·.name) ++ inside.lets
  let captured := distinct (inside.opened.filter fun name => !own.contains name)
  .opens captured
  let serial ← ExprM.freshSerial
  let function := Library.functionType serial ps last.type last.multiplicity
  return .lambda
    { type := .mk (.named Library.lambdaClass) [.ofRaw function], multiplicity := .one,
      span := a.span }
    ps body captured

def mapVariable : String := "v_automap"

/-- The lambda that applies a property to one of the values it is mapped over. -/
def mapped (c : Context) (a : NodeAttrs) (receiver : RawType) (compileGiven : ExprM (List Expr)) :
    LambdaBuilder :=
  lambda c { span := a.span }
    [{ tag := Node.variableTag, name := mapVariable, className := receiver.path,
       bounds := some { lower := 1, upper := some 1 } }]
    do
      let one ← variableExpr c { name := mapVariable }
      let given ← compileGiven
      return [← Navigation.select c.model a.property one given a.span]

def element (c : Context) (a : NodeAttrs) : ExprM Expr := do
  if c.isPackage a.path then
    return .constant (.ofRef Library.packageClass) a.span (.text a.path)
  else
    let e ← .ofResult (c.resolveElement a.path a.span)
    let serial ← ExprM.freshSerial
    return .constant (Library.classifier serial e) a.span (.element e.path)

def enumValue (c : Context) (a : NodeAttrs) : Result Expr := do
  match a.value.bind Literal.text? with
  | none => failAt a.span (.invalidEnumNode a.path)
  | some name =>
    let e ← c.resolve .enumeration a.path a.span
    let v ← Context.enumValue e name a.span
    return .constant (.ofRef (Context.asType e)) a.span (.enumValue e.path v.name)

def enumReceiver? (c : Context) (a : NodeAttrs) : Option Element :=
  if a.form = .element then (c.resolve .enumeration a.path a.span).toOption else none

/-- The items of a collection as one constant, typed by what they have in common. -/
def collect (c : Context) (a : NodeAttrs) (items : List Expr) : Expr :=
  match items with
  | [] => .instances { type := .ofRef Library.nil, multiplicity := .zero, span := a.span } []
  | items =>
    let value : Expr → Value
      | .instances _ [v] => v
      | e => .expr e
    let multiplicity := match a.bounds with
      | some b => .ofBounds b
      | none => .make items.length items.length
    .instances
      { type := .ofRaw (c.model.commonSuper (items.map (·.raw))), multiplicity, span := a.span }
      (items.map value)

def branchClass (a : NodeAttrs) (raw : RawType) (subType : Option TypeRef) : Result TypeRef :=
  match subType.or raw.class? with
  | some t => .ok t
  | none => failAt a.span (.noSubTrees a.property raw.render)

mutual

def compile (c : Context) : Node → ExprM Expr
  | .mk a parameters body values subTrees =>
    match a.form with
    | .literal => .ofResult (Literal.compile a)
    | .var => variableExpr c a
    | .call => do
      let args ← compileArguments c parameters
      dispatch c a.function a.control (lambdaBuilders c parameters) args a.span
    | .property =>
      match parameters with
      | [] => .fail a.span (.noReceiver a.property)
      | r :: rest =>
        match enumReceiver? c r.attrs with
        | some e => .ofResult (Navigation.enumValue e a.property r.attrs.span a.span)
        | none => do
          let receiver ← compile c r
          if receiver.multiplicity.isOne then
            let given ← compileAll c rest
            Navigation.select c.model a.property receiver given a.span
          else
            dispatch c "map" "" [none, some (mapped c a receiver.raw (compileAll c rest))]
              [some receiver, none] a.span
    | .lambda => lambda c a (parameters.map (·.attrs)) (compileAll c body) [] none
    | .collection => do
      let items ← compileItems c values
      return collect c a items
    | .element => element c a
    | .enumValue => .ofResult (enumValue c a)
    | .tree => do
      let t ← .ofResult (c.resolveClass a.className a.span)
      let branches ← compileBranches c subTrees t
      return .constant (.mk (.named Library.rootTreeClass) [.ofRef t]) a.span
        (.tree (.mk t.path a.span branches))
    | .branch => .fail a.span .nestedTreeOnly
    | .classInstance => .ofResult (.error (.unsupported (.classInstance a.instanceType)))
    | .unknown => .ofResult (.error (.unsupported (.nodeTag a.tag)))

def compileAll (c : Context) : List Node → ExprM (List Expr)
  | [] => return []
  | n :: ns => do
    let e ← compile c n
    return e :: (← compileAll c ns)

def compileItems (c : Context) : List Node → ExprM (List Expr)
  | [] => return []
  | n :: ns => do
    let e ← compile c n
    if e.multiplicity.isOne then return e :: (← compileItems c ns)
    else .fail n.span (.collectionItem e.multiplicity.render)

def compileArguments (c : Context) : List Node → ExprM (List (Option Expr))
  | [] => return []
  | n :: ns => do
    if n.isLambda then return none :: (← compileArguments c ns)
    else
      let e ← compile c n
      return some e :: (← compileArguments c ns)

def lambdaBuilders (c : Context) : List Node → List (Option LambdaBuilder)
  | [] => []
  | .mk a parameters body values subTrees :: ns =>
    (if Node.isLambda (.mk a parameters body values subTrees) then
      some (lambda c a (parameters.map (·.attrs)) (compileAll c body))
    else none) :: lambdaBuilders c ns

/-- Compiles a branch of a graph fetch tree over a class. Its arguments see the class
as `this`. -/
def compileBranch (c : Context) : Node → TypeRef → ExprM FetchBranch
  | .mk a parameters _ _ subTrees, t =>
    if a.form != .branch then .fail a.span .subTreeExpected
    else do
      let args ← ExprM.within { param := .ofType "this" t .one } (compileAll c parameters)
      let found ← .ofResult (c.model.member t a.property (args.length + 1) a.span)
      let subType ← if a.subType = "" then pure none
        else some <$> .ofResult (c.resolveClass a.subType a.span)
      let branches ← if subTrees.isEmpty then pure []
        else do
          let next ← .ofResult (branchClass a found.type.raw subType)
          compileBranches c subTrees next
      return .mk found.callee
        { type := .ofRef Library.propertyTreeClass, multiplicity := found.multiplicity,
          span := a.span }
        args a.aliasName (subType.map (·.path)) branches

def compileBranches (c : Context) : List Node → TypeRef → ExprM (List FetchBranch)
  | [], _ => return []
  | n :: ns, t => do
    let b ← compileBranch c n t
    return b :: (← compileBranches c ns t)

end

/-- Runs a compilation on a model: its warnings are added, whether it fails or not. It
numbers function types from above those in scope and those in `typed`. -/
def run (m : Model) (scope : Scope) (x : ExprM α) (typed : List Typed := []) : Result α × Model :=
  match x { scope, serial := max scope.nextSerial (parameterSerials typed) } with
  | (r, s) => (r, { m with warnings := m.warnings ++ s.warnings })

end Expression

namespace Context

def compileValue (c : Context) (n : Node) (scope : Scope) : Result Expr × Model :=
  Expression.run c.model scope (Expression.compile c n)

/-- Compiles a node as a lambda, whatever its tag says. Parameters without a type of
their own take those of `typed`. -/
def compileLambda (c : Context) (n : Node) (scope : Scope) (typed : List Typed := []) :
    Result Expr × Model :=
  Expression.run c.model scope
    (Expression.lambda c n.attrs (n.parameters.map (·.attrs)) (Expression.compileAll c n.body)
      typed none)
    typed

end Context
end ModelGraph
