/-
# Failures of steps that move an element on

A step that moves an element on to its next stage may be refused, which is a plain failure. Its
failures are told as long as the element is at an earlier stage.

Key theorems: `AssociationDecl.milestoneStep_told`, `AssociationDecl.compileStep_told`,
`FunctionDecl.compileStep_told`.
-/
import ModelGraph.Proofs.Domain.Effects

namespace ModelGraph

open Build MemberLists Stage Function

/-! ### Steps that move an element on -/

variable {m : Model} {c : ClassContent} {a : AssociationContent}

open Model

theorem ClassDecl.structureStep_told (d : ClassDecl) (hc : m.staged? d.header.path = some (.classType c))
    (hs : c.stage.rank < structured.rank) : Result.Told (d.structureStep m) := by
  refine throws_bind_at (Result.throws_ok _) (ensures_context.2 ?_)
  refine throws_bind_at (throws_get m) (ensures_get.2 ?_)
  refine throws_bind_at (throws_liftM (d.resolveSupers_told _ _ _) m) (ensures_liftM.2 fun named _ => ?_)
  refine throws_bind_at (throws_mapM (fun p _ => throws_liftM (p.build_told _ _)) m)
    (ensures_mapM_liftM fun properties _ => ?_)
  refine throws_bind_at (throws_mapM (fun q _ => throws_liftM (q.1.signature_told _ _ _ _)) m)
    (ensures_mapM_liftM fun qualified _ => ?_)
  refine throws_bind_at (throws_mapM (fun p _ => throws_liftM (p.build_told _ _)) m)
    (ensures_mapM_liftM fun originals _ => ?_)
  refine throws_bind_at (throws_classOf _ m) ((ensures_classOf_staged hc).2 ?_)
  exact (throws_liftM (advance_told hs)).bind (fun _ => throws_setClass _ _) m

theorem milestoneClass_told {owner : TypeRef} (hc : m.staged? owner.path = some (.classType c))
    (hs : c.stage.rank < milestoned.rank) : Result.Told (milestoneClass owner m) := by
  refine throws_bind_at ((replaceDated_made _ _).told m) ((replaceDated_effect (.inl rfl) hc).mono ?_)
  rintro _ m₁ ⟨qs, -, hm₁, -⟩
  have hc₁ := congrFun hm₁ owner.path
  rw [update_self] at hc₁
  refine throws_bind_at ((replaceDated_made _ _).told m₁) ((replaceDated_effect (.inr rfl) hc₁).mono ?_)
  rintro _ m₂ ⟨rs, -, hm₂, -⟩
  have hc₂ := congrFun hm₂ owner.path
  rw [update_self] at hc₂
  refine throws_bind_at (throws_classOf _ m₂) ((ensures_classOf_staged hc₂).2 ?_)
  rw [stage_replace associated_mild, stage_replace own_mild]
  exact (throws_liftM (advance_told hs)).bind (fun _ => throws_setClass _ _) m₂

theorem ClassDecl.compileStep_told (d : ClassDecl) (hc : m.staged? d.header.path = some (.classType c))
    (hs : c.stage.rank < compiled.rank) : Result.Told (d.compileStep m) := by
  rw [compileStep_eq]
  refine throws_bind_at (d.compileMembers_made.told m) ((compileMembers_effect hc).mono ?_)
  rintro constraints n ⟨c', hn, hframe, -⟩
  have hc' : n.staged? d.header.path = some (.classType c') := by rw [hn, update_self]
  refine throws_bind_at (throws_classOf _ n) ((ensures_classOf_staged hc').2 ?_)
  have hstage : c'.stage = c.stage := show c'.frame.stage = c.frame.stage from hframe ▸ rfl
  rw [← hstage] at hs
  exact (throws_liftM (advance_told hs)).bind (fun _ => throws_setClass _ _) n

namespace AssociationDecl

variable (d : AssociationDecl)

theorem milestoneStep_told (ha : m.staged? d.header.path = some (.association a))
    (hs : a.stage.rank < milestoned.rank) : Result.Told (d.milestoneStep m) := by
  refine throws_bind_at ((contentOf_made _).told m) ((ensures_contentOf_staged ha).2 ?_)
  refine (throws_liftM (advance_told hs)).bind (fun _ => ?_) m
  split
  · exact throws_pure _
  · exact (throws_classOf _).bind fun _ => (throws_classOf _).bind fun _ => throws_modify _

theorem compileStep_told (ha : m.staged? d.header.path = some (.association a))
    (hs : a.stage.rank < compiled.rank) : Result.Told (d.compileStep m) := by
  refine throws_bind_at ((contentOf_made _).told m) ((ensures_contentOf_staged ha).2 ?_)
  refine throws_bind_at ((made_forM fun y _ => d.compileQualified_made y.1.1 y.1.2 y.2).told m)
    ((compileQualifieds_effect ha).mono fun _ n hn => ?_)
  obtain ⟨a', ha', hstage, -⟩ := hn.staged
  refine throws_bind_at ((contentOf_made _).told n) ((ensures_contentOf_staged ha').2 ?_)
  rw [← hstage] at hs
  exact (throws_liftM (advance_told hs)).bind (fun _ => throws_modify _) n

end AssociationDecl

theorem FunctionDecl.compileStep_told (d : FunctionDecl)
    (hs : ∀ f, m.staged? d.elementPath = some (.function f) → f.stage.rank < compiled.rank) :
    Result.Told (d.compileStep m) := by
  refine throws_bind_at (d.contentOf_made.told m) (d.ensures_contentOf_staged.2 fun f hf => ?_)
  refine throws_guard (told_fail _ _ rfl) (fun _ => (body_told _ _ _).bind fun body => ?_) m
  have hrest (u : PUnit) : Told (do
      let preConstraints ← d.preConstraints.mapM fun c => c.compile d.elementPath (parameterScope f.parameters [])
      let postConstraints ← d.postConstraints.mapM fun c => c.compile d.elementPath
        ({ param := { name := "return", type := f.resultType, multiplicity := f.result } } ::
          parameterScope f.parameters [])
      let tests ← d.compileTests f
      let stage ← f.stage.advance .compiled
      modify fun m => m.setContent d.elementPath
        (.function { f with body, preConstraints, postConstraints, tests, stage })) :=
    (made_mapM fun k _ => k.compile_made _ _).told.bind fun _ => (made_mapM fun k _ => k.compile_made _ _).told.bind fun _ =>
      (d.compileTests_made f).told.bind fun _ => (throws_liftM (advance_told (hs f hf))).bind fun _ => throws_modify _
  split
  · exact (fits_told _ _ _ _).bind hrest
  · exact (told_fail _ _ rfl).bind hrest

end ModelGraph
