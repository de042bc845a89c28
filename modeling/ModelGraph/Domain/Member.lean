/-
# Members of classes and associations

Properties and the signatures of derived properties are resolved first; bodies are
compiled once all members are known. A body sees the receiver as `this`, which in a
dated class carries its own dates.
-/
import ModelGraph.Build.Monad

namespace ModelGraph

def PropertyDecl.build (p : PropertyDecl) (c : Context) (owner : String) : Result Property := do
  let type ← c.resolveTyped p.typePath p.typeExpr p.typeSpan
  let annotations ← c.annotations p.annotations
  return { name := p.name, owner, type, multiplicity := .ofBounds p.bounds,
           aggregation := p.aggregation, annotations, span := p.span }

/-- The declared parameters of a derived property, the receiver aside. -/
def QualifiedDecl.ownParameters (q : QualifiedDecl) : List Node :=
  match q.parameters with
  | p :: ps => if p.attrs.name = "this" then ps else p :: ps
  | [] => []

/-- A derived property without its body. `this` is the class that it is navigated
from, `ordinal` its number among those of its element. -/
def QualifiedDecl.signature (q : QualifiedDecl) (c : Context) (owner : String) (this : TypeRef)
    (ordinal : Nat) : Result QualifiedProperty := do
  let parameters ← q.ownParameters.mapM fun p => c.parameter p.attrs
  let type ← c.resolveTyped q.returnPath q.returnExpr q.span
  let annotations ← c.annotations q.annotations
  return { name := q.name, owner, parameters := .ofType "this" this .one :: parameters, type,
           multiplicity := .ofBounds q.bounds, annotations, span := q.span,
           ordinal := some ordinal }

/-- The receiver in scope. In a dated class it carries its dates, as far as it has
properties for them. -/
def thisBinding (m : Model) (t : TypeRef) : Binding :=
  let this := Param.ofType "this" t .one
  match m.temporal t with
  | .none => { param := this }
  | found =>
    let dates := found.dimensions.foldl
      (fun (d : Dates Expr) x =>
        match m.member t x.dateName 1 {} with
        | .error _ => d
        | .ok p => d.set (some (Navigation.apply p x.dateName [this.expr] none [] {})) x)
      .empty
    { param := this, dates := some dates }

def parameterScope (parameters : List Param) (outer : Scope) : Scope :=
  parameters.foldl (fun s p => { param := p } :: s) outer

def QualifiedDecl.compileBody (q : QualifiedDecl) (path : String) (signature : QualifiedProperty)
    (this : TypeRef) (ownerName : String) : Build (List Expr) := do
  if q.body.isEmpty then Build.fail q.span (.emptyQualifiedBody q.name)
  let m ← get
  let scope := parameterScope (signature.parameters.drop 1) [thisBinding m this]
  let exprs ← Build.body path q.body scope
  match exprs.getLast?, q.body.getLast? with
  | some last, some node =>
    Build.fits last (signature.type, signature.multiplicity)
      ("Error in derived property '" ++ ownerName ++ "." ++ q.name ++ "'") node.span
    return exprs
  | _, _ => Build.fail q.span (.emptyQualifiedBody q.name)

end ModelGraph
