/-
# Constraints

The condition of a constraint gives a truth value. A message that cannot be compiled
is left out, with a warning.
-/
import ModelGraph.Build.Monad

namespace ModelGraph

namespace ConstraintDecl

def compileCondition (d : ConstraintDecl) (path : String) (scope : Scope) : Build Expr := do
  match ← Build.tryLambda path d.condition scope with
  | .error f => throw (if f.hasSpan then f else f.moveTo d.span)
  | .ok e =>
    if (e.lastOfBody?.map fun last => last.raw.isRef Library.boolean).getD false then return e
    else
      let span := match d.condition.body.getLast? with
        | some n => n.span
        | none => d.span
      Build.fail span .constraintNotBoolean

def compileMessage (d : ConstraintDecl) (path : String) (scope : Scope) :
    Build (Option Expr) := do
  match d.message with
  | none => return none
  | some n =>
    match ← Build.tryLambda path n scope with
    | .ok e => return some e
    | .error f =>
      modify fun m => m.warn "constraint-message" d.span path
        ("Can't build the message function for constraint '" ++ d.name ++ "' of '" ++ path ++
          "': " ++ f.message)
      return none

def compile (d : ConstraintDecl) (path : String) (scope : Scope) : Build Constraint := do
  let condition ← d.compileCondition path scope
  let message ← d.compileMessage path scope
  return { name := d.name, owner := path, condition, message, externalId := d.externalId,
           level := d.level, span := d.span }

end ConstraintDecl
end ModelGraph
