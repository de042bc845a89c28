/-
# Navigation

A property is applied to exactly one instance of a class. It is looked for in the
class and its supertypes; in each, stored properties come before derived ones, and
its own before those of associations. A property that stands for a dated class
takes dates, and dates that are left out are those in force where it is applied.
-/
import ModelGraph.Expression.Scope
import ModelGraph.Hierarchy

namespace ModelGraph

def allVersions : String := "AllVersions"

def allVersionsInRange : String := "AllVersionsInRange"

def QualifiedProperty.isGenerated (q : QualifiedProperty) : Bool :=
  q.annotations.has Library.milestoningProfile Library.generatedMember

namespace Model

def ownMember? (c : ClassContent) (name : String) (arity : Nat) : Option Member :=
  let derived (qs : List QualifiedProperty) : Option Member :=
    (qs.find? fun q => q.name = name && q.parameters.length = arity).map .derived
  match (c.properties ++ c.assocProperties).find? fun p => p.name = name with
  | some p => some (.stored p)
  | none => (derived c.qualified).or (derived c.assocQualified)

/-- The member of a class or a supertype that a name means; `arity` counts the
receiver. -/
def member (m : Model) (t : TypeRef) (name : String) (arity : Nat) (span : Span) :
    Result Member :=
  match (m.classOrder t).findSome? fun (_, c) => ownMember? c name arity with
  | some found => .ok found
  | none => failAt span (.unknownProperty name (Problem.commas ((m.order t).map (·.name))))

def datedMember? (m : Model) (t : TypeRef) (name : String) : Option QualifiedProperty :=
  (m.classOrder t).findSome? fun (_, c) =>
    (c.qualified ++ c.assocQualified).find? fun q => q.name = name && q.isGenerated

def rawTemporal (m : Model) : RawType → Temporal
  | .named t => m.declaredTemporal t
  | .function .. => .none

/-- The time dimensions that the class declares which a generated property is
navigated from. For one of an association it is the type of the other end. -/
def sourceTemporal (m : Model) (q : QualifiedProperty) (fallback : TypeRef) : Temporal :=
  match m.element? q.owner with
  | some e =>
    match e.content with
    | .classType _ => m.declaredTemporal { kind := .classType, path := e.path, name := e.name }
    | .association a =>
      match a.originals.find? fun p => p.name != q.name with
      | some p => m.rawTemporal p.type.raw
      | none => m.declaredTemporal fallback
    | _ => m.declaredTemporal fallback
  | none => m.declaredTemporal fallback

end Model

/-- The dates of a navigation from a `source` to a `target` class: those given, the
others from the context where the source is dated in that dimension. `none` if a
date is missing. -/
def fillDates (source target : Temporal) (given : List Expr) (context : Dates Expr) :
    Option (List Expr) :=
  match target, source, given with
  | .both, .both, [d] | .both, .processing, [d] => context.processing.map fun p => [p, d]
  | .both, .business, [d] => context.business.map fun b => [d, b]
  | .both, .both, [] =>
    match context.processing, context.business with
    | some p, some b => some [p, b]
    | _, _ => none
  | .both, _, _ => none
  | .business, .both, [] | .business, .business, [] => context.business.map fun b => [b]
  | .processing, .both, [] | .processing, .processing, [] => context.processing.map fun p => [p]
  | .business, _, _ | .processing, _, _ => none
  | .none, _, _ => some []

/-- The dates in force after a navigation: those of the target are replaced, others
stay. -/
def datesAfter (context : Option (Dates Expr)) (target : Temporal) (dates : List Expr) :
    Dates Expr :=
  (target.dimensions.zip dates).foldl (fun d x => d.set (some x.2) x.1) (context.getD .empty)

namespace Navigation

def apply (found : Member) (name : String) (args : List Expr) (dates : Option (Dates Expr))
    (original : List Expr) (span : Span) : Expr :=
  .call { type := found.type, multiplicity := found.multiplicity, span } name found.callee args
    name dates original

/-- Applies a generated property: with its dates given, or with those in force. -/
def dated (m : Model) (t : TypeRef) (q : QualifiedProperty) (name : String) (receiver : Expr)
    (given : List Expr) (context : Option (Dates Expr)) (span : Span) : Result Expr := do
  let target := m.rawTemporal q.type.raw
  let needed := target.dimensions.length
  let ranged := endsWithText name allVersionsInRange
  if ranged || needed ≤ given.length then
    let found ← m.member t name (given.length + 1) span
    let dates := if !ranged && given.length = needed then some (datesAfter context target given)
      else none
    return apply found name (receiver :: given) dates [] span
  else
    match fillDates (m.sourceTemporal q t) target given (context.getD .empty) with
    | none => failAt span (.datesRequired name target.listNames)
    | some dates =>
      let found ← m.member t name (needed + 1) span
      return apply found name (receiver :: dates) (some (datesAfter context target dates))
        (receiver :: given) span

/-- Applies a property to a receiver and further arguments. A stored property carries
the dates of its receiver on, unless it gives all versions. -/
def select (m : Model) (name : String) (receiver : Expr) (given : List Expr) (span : Span) :
    ExprM Expr := do
  match receiver.raw.class? with
  | none => .fail span (.unknownProperty name receiver.raw.render)
  | some t =>
    let context ← ExprM.datesOf receiver
    match m.datedMember? t name with
    | some q => .ofResult (dated m t q name receiver given context span)
    | none =>
      let found ← .ofResult (m.member t name (given.length + 1) span)
      let dates := match found with
        | .stored p => if endsWithText p.name allVersions then none else context
        | .derived _ => none
      return apply found name (receiver :: given) dates [] span

def enumValue (e : Element) (name : String) (enumSpan span : Span) : Result Expr := do
  let _ ← Context.enumValue e name span
  match Library.nativesCalled "extractEnumValue" with
  | [] => failAt span (.noBuilder "extractEnumValue")
  | (package, n) :: _ =>
    let args :=
      [.constant (Library.classifier 0 e) enumSpan (.element e.path),
       .constant (.ofRef Library.string) span (.text name)]
    return .call { type := .ofRef (Context.asType e), multiplicity := .one, span } n.functionName
      (.function (Path.join package n.elementName)) args "" none []

end Navigation
end ModelGraph
