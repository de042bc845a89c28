/-
# Building

A step of a build changes a model or fails. Expressions are compiled on behalf of
an element, in the model as it is at that step.
-/
import ModelGraph.Expression.Compile

namespace ModelGraph

abbrev Build : Type → Type := StateT Model (Except Failure)

namespace Build

def fail (span : Span) (problem : Problem) : Build α := fun _ => failAt span problem

def context (path : String) : Build Context := fun m => .ok (Context.of m path, m)

def settle (x : Model → Result α × Model) : Build α := fun m =>
  match x m with
  | (.ok a, m) => .ok (a, m)
  | (.error f, _) => .error f

def value (path : String) (n : Node) (scope : Scope := []) : Build Expr :=
  settle fun m => (Context.of m path).compileValue n scope

def lambda (path : String) (n : Node) (scope : Scope := []) (typed : List Typed := []) :
    Build Expr :=
  settle fun m => (Context.of m path).compileLambda n scope typed

/-- Compiles a lambda on behalf of an element and gives a failure as a result. -/
def tryLambda (path : String) (n : Node) (scope : Scope := []) : Build (Result Expr) := fun m =>
  .ok ((Context.of m path).compileLambda n scope)

def body (path : String) (ns : List Node) (scope : Scope) : Build (List Expr) :=
  settle fun m => Expression.run m scope (Expression.compileAll (Context.of m path) ns)

/-- Checks that a result has a type and multiplicity that were declared. `stub` says
whose result it is. -/
def fits (e : Expr) (declared : Typed) (stub : String) (span : Span) : Build Unit := fun m =>
  if !m.isSubType e.raw declared.1.raw then
    failAt span (.typeMismatch stub e.raw.render declared.1.raw.render)
  else if !declared.2.subsumes e.multiplicity then
    failAt span (.multiplicityMismatch stub declared.2.render e.multiplicity.render)
  else .ok ((), m)

def register (header : Header) (content : ElementContent) (annotations : Annotations := {}) :
    Build Unit := fun m =>
  (m.register header.package header.name header.span content annotations).map fun m => ((), m)

def classOf (path : String) : Build ClassContent := fun m => .ok ((m.class? path).getD {}, m)

def setClass (path : String) (c : ClassContent) : Build Unit :=
  modify fun m => m.setContent path (.classType c)

end Build

/-- The outermost part of the tests of bodies: whether a raw type is a given one. -/
def RawType.isRef (r : RawType) (t : TypeRef) : Bool := r.same (.named t)

end ModelGraph
