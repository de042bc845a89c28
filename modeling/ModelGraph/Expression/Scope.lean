/-
# Scopes

While an expression is compiled, variables are looked up in a scope that grows as
declarations are met. A lambda is compiled in a state of its own, of which only
warnings and the count of function types are kept; the names it takes from outside
are added to those of the enclosing lambda.
-/
import ModelGraph.Names

namespace ModelGraph

/-- A variable in scope, with the dates that its value was navigated with. -/
structure Binding where
  param : Param
  dates : Option (Dates Expr) := none

abbrev Scope : Type := List Binding

namespace Scope

def lookup? (s : Scope) (name : String) : Option Binding :=
  s.find? fun b => b.param.name = name

def names (s : Scope) : List String := distinct (s.map fun b => b.param.name)

/-- A serial number above those of the function types in scope. -/
def nextSerial (s : Scope) : Nat := nextSerials (s.map fun b => b.param.type)

end Scope

def Param.ofType (name : String) (t : TypeRef) (m : Multiplicity) : Param :=
  { name, type := .ofRef t, multiplicity := m }

def Param.expr (p : Param) : Expr :=
  .var { type := p.type, multiplicity := p.multiplicity, span := p.span } p.name

structure ExprState where
  scope : Scope := []
  opened : List String := []
  lets : List String := []
  warnings : List Finding := []
  serial : Nat := 0

/-- Compiling expressions: the state stays when a failure ends it. -/
abbrev ExprM : Type → Type := ExceptT Failure (StateM ExprState)

namespace ExprM

def ofResult (r : Result α) : ExprM α := fun s => (r, s)

def fail (span : Span) (problem : Problem) : ExprM α := ofResult (failAt span problem)

def scope : ExprM Scope := fun s => (.ok s.scope, s)

def declare (b : Binding) : ExprM Unit := fun s => (.ok (), { s with scope := b :: s.scope })

def opens (names : List String) : ExprM Unit :=
  fun s => (.ok (), { s with opened := s.opened ++ names })

def lets (name : String) : ExprM Unit := fun s => (.ok (), { s with lets := s.lets ++ [name] })

def freshSerial : ExprM Nat := fun s => (.ok s.serial, { s with serial := s.serial + 1 })

def warn (f : Finding) : ExprM Unit :=
  fun s => (.ok (), { s with warnings := s.warnings ++ [f] })

/-- Compiles in a state of its own with the same scope, and gives that state too. -/
def inner (x : ExprM α) : ExprM (α × ExprState) := fun s =>
  match x { s with opened := [], lets := [] } with
  | (.ok a, t) => (.ok (a, t), { s with warnings := t.warnings, serial := t.serial })
  | (.error f, t) => (.error f, { s with warnings := t.warnings, serial := t.serial })

/-- Compiles with more variables in scope, which are gone afterwards. -/
def within (b : Binding) (x : ExprM α) : ExprM α := fun s =>
  match x { s with scope := b :: s.scope } with
  | (r, t) => (r, { t with scope := s.scope })

def attempt (x : ExprM α) : ExprM (Result α) := fun s =>
  match x s with
  | (r, t) => (.ok r, t)

def datesOf (e : Expr) : ExprM (Option (Dates Expr)) := do
  match e with
  | .call _ _ _ _ _ dates _ => return dates
  | .var _ name => return ((← scope).lookup? name).bind (·.dates)
  | _ => return none

end ExprM
end ModelGraph
