/-
# Candidates of a call

A call names a function that may have several overloads: functions of the library,
then those of the model, in order. A candidate accepts arguments whose types and
multiplicities fit its parameters. A native function also says how its result and
the parameters of lambdas among the arguments are typed.
-/
import ModelGraph.Hierarchy
import ModelGraph.Names

namespace ModelGraph

abbrev Typed : Type := GenericType × Multiplicity

namespace Native

def anything : Typed := (.ofRef Library.any, .zeroMany)

def standsFor? (e : Expr) : Option GenericType :=
  match e.type.args with
  | [t] => some t
  | _ => none

def mappedResult (source : Multiplicity) (result : Typed) : Typed :=
  if source.isOne && result.2.isOne then (result.1, .one)
  else if source.upper = some 1 && result.2.upper = some 1 then (result.1, .zeroOne)
  else (result.1, .zeroMany)

def resultOf (n : Native) (m : Model) (args : List Expr) : Typed :=
  match n.resultRule with
  | .declared => (.ofRef n.resultType, n.result)
  | .typeOf i multiplicity =>
    match args[i]? with
    | some e => (e.type, multiplicity)
    | none => anything
  | .sameAs i =>
    match args[i]? with
    | some e => (e.type, e.multiplicity)
    | none => anything
  | .typeArgumentOf i multiplicity =>
    ((args[i]?.bind standsFor?).getD (.ofRef Library.any), multiplicity)
  | .castTo i =>
    match args[i]?, args[0]? with
    | some e, some first => ((standsFor? e).getD e.type, first.multiplicity)
    | _, _ => anything
  | .lambdaResult i =>
    match args[i]?.bind fun e => e.type.functionSignature? with
    | some (_, type, multiplicity) => (type, multiplicity)
    | none => anything
  | .mapped =>
    match args[0]?, args[1]?.bind fun e => e.type.functionSignature? with
    | some first, some (_, result) => mappedResult first.multiplicity result
    | _, _ => anything
  | .concatenated =>
    match args with
    | [a, b] =>
      (.ofRaw (m.commonSuper [a.raw, b.raw]), a.multiplicity.sum b.multiplicity)
    | _ => anything
  | .branches =>
    match args[1]?.bind fun e => e.type.functionSignature?,
        args[2]?.bind fun e => e.type.functionSignature? with
    | some (_, t, tm), some (_, e, em) =>
      (.ofRaw (m.commonSuper [t.raw, e.raw]), tm.join em)
    | _, _ => anything

/-- The types of the parameters of a lambda among the arguments, which are given as
far as they are no lambdas. -/
def lambdaTypes (n : Native) (args : List (Option Expr)) : List Typed :=
  match n.lambdaRule with
  | .untyped => []
  | .elementOf i =>
    match args[i]? with
    | some (some e) => [(e.type, .one)]
    | _ => []
  | .accumulator =>
    match args[0]?, args[2]? with
    | some (some e), some (some acc) => [(e.type, .one), (acc.type, acc.multiplicity)]
    | _, _ => []
  | .applied =>
    match args[1]? with
    | some (some e) => [(e.type, e.multiplicity)]
    | _ => []

end Native

inductive Candidate where
  | native (package : String) (function : Native)
  /-- A function of the model, by the path and name of its element. -/
  | declared (path name : String) (function : FunctionContent)

namespace Candidate

def name : Candidate → String
  | native _ n => n.functionName
  | declared _ _ f => f.functionName

def elementName : Candidate → String
  | native _ n => n.elementName
  | declared _ name _ => name

def callee : Candidate → Callee
  | native package n => .function (Path.join package n.elementName)
  | declared path _ _ => .function path

def parameters : Candidate → List Typed
  | native _ n => n.parameters.map fun p => (.ofRef p.1, p.2)
  | declared _ _ f => f.parameters.map fun p => (p.type, p.multiplicity)

def isNative : Candidate → Bool
  | native .. => true
  | declared .. => false

def resultOf (m : Model) (args : List Expr) : Candidate → Typed
  | native _ n => n.resultOf m args
  | declared _ _ f => (f.resultType, f.result)

/-- The types of the parameters of a lambda at a place among the arguments. -/
def lambdaTypes (args : List (Option Expr)) (i : Nat) : Candidate → List Typed
  | native _ n => n.lambdaTypes args
  | declared _ _ f =>
    match f.parameters[i]? with
    | none => []
    | some p =>
      (p.type.args.findSome? fun t => match t.raw with
        | .function _ parameters _ _ => some parameters
        | .named _ => none).getD []

def fits (m : Model) (parameter : Typed) (arg : Expr) : Bool :=
  m.isSubType arg.raw parameter.1.raw && parameter.2.subsumes arg.multiplicity

def fitAll (m : Model) : List Typed → List Expr → Bool
  | [], [] => true
  | p :: ps, a :: as => fits m p a && fitAll m ps as
  | _, _ => false

def accepts (m : Model) (args : List Expr) (c : Candidate) : Bool := fitAll m c.parameters args

end Candidate

namespace Model

def functionsAt (m : Model) (key : String) : List Candidate :=
  m.elements.filterMap fun e => match e.content with
    | .function f =>
      if f.package ++ Path.separator ++ f.functionName = key then
        some (.declared e.path e.name f)
      else none
    | _ => none

/-- The functions of a name: of the library by plain name, of library and model by
package and name. -/
def candidatesAt (m : Model) (key : String) : List Candidate :=
  match Path.cutLast key with
  | none => (Library.nativesCalled key).map fun n => .native n.1 n.2
  | some (package, name) =>
    ((Library.nativesCalled name).filter fun n => n.1 = package).map (fun n => .native n.1 n.2) ++
      m.functionsAt key

end Model

namespace Context

def candidates (c : Context) (name : String) (span : Span) : Result (List Candidate) :=
  match c.model.candidatesAt name with
  | found@(_ :: _) => .ok found
  | [] =>
    let hits := c.imports.filterMap fun package =>
      let full := package ++ Path.separator ++ name
      match c.model.candidatesAt full with
      | [] => none
      | found => some (full, found)
    match hits with
    | [] => failAt span (.noBuilder name)
    | [(_, found)] => .ok found
    | hits => failAt span (.ambiguousBuilder name ((hits.map (·.1)).mergeSort fun a b => a ≤ b))

end Context

/-- The name to look a call up by, and the name to check what is found against. A
function may be called by the name of its element. -/
def callName (function control : String) : String × String :=
  if hasUnderscore (Path.lastSegment function) then (beforeUnderscore function, function)
  else (function, control)

def controlProblem? (check : String) (c : Candidate) : Option Problem :=
  if check = "" then none
  else
    let wanted := Path.lastSegment check
    let found := if hasUnderscore wanted then c.elementName else c.name
    if wanted = found then none else some (.functionMismatch check found)

/-- A call in words, with the types of its arguments as far as they are known. -/
def renderCall (name : String) (args : List (Option Expr)) : String :=
  let part : Option Expr → String
    | none => "?"
    | some e => (GenericType.ofRaw e.raw).renderShort ++ e.multiplicity.render
  name ++ "(" ++ ",".intercalate (args.map part) ++ ")"

end ModelGraph
