/-
# Functions

A function is declared under a name that carries its signature, so that functions of
one name can stand side by side. Its body gives what the signature says; its
constraints see the parameters, those on the result also the result; its tests give
an argument for each parameter and one assertion.
-/
import ModelGraph.Domain.Constraint
import ModelGraph.Domain.Member

namespace ModelGraph

/-- Whether a value of a test is of a declared type, by name, and not too many. An
empty value is of every type. -/
def valueMatches (e : Expr) (declared : Typed) : Bool :=
  (e.raw.isNil || e.raw.name = declared.1.raw.name) && declared.2.subsumes e.multiplicity

namespace TestParameterDecl

def compile (d : TestParameterDecl) (path : String) (p : Param) (span : Span) :
    Build TestArgument := do
  if d.name != "" && d.name != p.name then Build.fail span .testParameterName
  match d.data, d.value with
  | some data, _ =>
    if Json.isValid data.data then return { name := p.name, data }
    else Build.fail span (.testParameterJson p.name)
  | none, some n =>
    let e ← Build.value path n
    if valueMatches e (p.type, p.multiplicity) then return { name := p.name, value := some e }
    else Build.fail span (.testParameterType p.name)
  | none, none => throw (.unsupported (.testParameter d.tag))

end TestParameterDecl

namespace AssertionDecl

def equalTo : String := "equalTo"

def equalToJson : String := "equalToJson"

def jsonData? (d : AssertionDecl) : Option FormatData :=
  match d.expected.map FormatData.decoder.decode with
  | some (.ok data) => if Json.isValid data.data then some data else none
  | _ => none

def compile (d : AssertionDecl) (path : String) (result : Typed) (span : Span) :
    Build TestAssertion := do
  if d.tag = equalTo then
    match (d.expected.map Node.decode).getD (.error .mismatch) with
    | .error fault => Build.fail span (.testExpected d.id fault)
    | .ok n =>
      let e ← Build.value path n
      if valueMatches e result then return { id := d.id, kind := d.tag, expected := some e }
      else Build.fail span .testAssertType
  else if d.tag = equalToJson then
    match d.jsonData? with
    | some data => return { id := d.id, kind := d.tag, data }
    | none => Build.fail span .testAssertJson
  else throw (.unsupported (.testAssertion d.tag))

end AssertionDecl

def FunctionTestDecl.compile (d : FunctionTestDecl) (path : String) (parameters : List Param)
    (result : Typed) : Build FunctionTest := do
  if !d.parameters.isEmpty && d.parameters.length != parameters.length then
    Build.fail d.span .testParameterCount
  let arguments ← (d.parameters.zip parameters).mapM fun (a, p) => a.compile path p d.span
  match d.assertions with
  | [] => Build.fail d.span .testWithoutAssertion
  | a :: _ =>
    let assertion ← a.compile path result d.span
    return { id := d.id, arguments, assertion, span := d.span }

namespace FunctionDecl

def multiplicityOf (n : Node) : Multiplicity :=
  match n.attrs.bounds with
  | some b => .ofBounds b
  | none => .one

def signature (d : FunctionDecl) : Signature :=
  { parameters := d.parameters.map fun p => (p.typePath, multiplicityOf p)
    resultType := d.returnPath
    result := .ofBounds d.bounds }

def elementHeader (d : FunctionDecl) : Header :=
  { d.header with name := d.signature.elementName d.header.name }

def elementPath (d : FunctionDecl) : String := d.elementHeader.path

def declare (d : FunctionDecl) : Build Unit := do
  let c ← Build.context d.header.path
  let base : FunctionContent :=
    { package := d.header.package, functionName := d.signature.plainName d.header.name,
      resultType := .ofRef Library.any, result := .ofBounds d.bounds }
  Build.register d.elementHeader (.function base)
  if d.elementPath != d.header.path then
    modify fun m => { m with imports := m.imports ++ [(d.elementPath, m.importsOf d.header.path)] }
  let parameters ← d.parameters.mapM fun p => c.parameter p.attrs
  let resultType ← c.resolveTyped d.returnPath d.returnExpr d.header.span
  let annotations ← c.annotations d.annotations
  let stage ← base.stage.advance .structured
  modify fun m => m.update d.elementPath fun e =>
    { e with annotations, content := .function { base with stage, parameters, resultType } }

def contentOf (d : FunctionDecl) : Build FunctionContent := fun m =>
  match m.declared? d.elementPath with
  | some { content := .function f, .. } => .ok (f, m)
  | _ => failAt d.header.span (.unknown .function d.elementPath)

def compileTests (d : FunctionDecl) (f : FunctionContent) : Build (List FunctionTest) := do
  if d.tests.isEmpty then return []
  if f.result.upper = some 0 then Build.fail d.header.span .testNeedsResult
  if (distinct (d.tests.map (·.id))).length != d.tests.length then
    Build.fail d.header.span .testIdsNotUnique
  d.tests.mapM fun t => t.compile d.elementPath f.parameters (f.resultType, f.result)

def compileStep (d : FunctionDecl) : Build Unit := do
  let f ← d.contentOf
  let path := d.elementPath
  if d.body.isEmpty then Build.fail d.header.span (.emptyFunctionBody path)
  let scope := parameterScope f.parameters []
  let body ← Build.body path d.body scope
  match body.getLast?, d.body.getLast? with
  | some last, some node =>
    Build.fits last (f.resultType, f.result) ("Error in function '" ++ path ++ "'") node.span
  | _, _ => Build.fail d.header.span (.emptyFunctionBody path)
  let preConstraints ← d.preConstraints.mapM fun c => c.compile path scope
  let result : Param := { name := "return", type := f.resultType, multiplicity := f.result }
  let postConstraints ← d.postConstraints.mapM fun c => c.compile path ({ param := result } :: scope)
  let tests ← d.compileTests f
  let stage ← f.stage.advance .compiled
  modify fun m => m.setContent path
    (.function { f with body, preConstraints, postConstraints, tests, stage })

end FunctionDecl
end ModelGraph
