/-
# Compiling takes notes only

Expressions are compiled in a model as it is. What changes are the warnings; the
elements, the options and the imports stay.

Key definitions: `Build.Notes`.
Key theorems: `Build.run_noted`, `Build.notes_value`.
-/
import ModelGraph.Proofs.Build.Logic
import ModelGraph.Proofs.Model.Growth

namespace ModelGraph

open Model

variable {α : Type}

/-- Wherever the step goes through, it takes the model along `R`. -/
def Build.Along (R : Model → Model → Prop) (x : Build α) : Prop := ∀ m, x.Ensures m fun _ m' => R m m'

/-- The step leaves the elements of the model alone. -/
abbrev Build.Notes (x : Build α) : Prop := x.Along Noted

namespace Build

theorem run_noted (m : Model) (scope : Scope) (x : ExprM α) (typed : List Typed) :
    m.Noted (Expression.run m scope x typed).2 :=
  ⟨rfl, rfl, rfl, rfl⟩

theorem notes_settle {x : Model → Result α × Model} (h : ∀ m : Model, m.Noted (x m).2) : (settle x).Notes :=
  fun m => ensures_settle.2 fun _ _ => h m

theorem notes_value (path : String) (n : Node) (scope : Scope) : (value path n scope).Notes :=
  notes_settle fun m => run_noted m _ _ _

theorem notes_body (path : String) (ns : List Node) (scope : Scope) : (body path ns scope).Notes :=
  notes_settle fun m => run_noted m _ _ _

theorem notes_fits (e : Expr) (declared : Typed) (stub : String) (span : Span) :
    (fits e declared stub span).Notes := fun m => ensures_fits.2 fun _ _ => .refl m

end Build
end ModelGraph
