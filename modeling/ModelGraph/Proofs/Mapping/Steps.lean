/-
# What steps over mappings leave alone

Each step over a mapping changes that mapping and no other. What a mapping includes and how it
maps enumerations stays when its class mappings are built, and what class mappings are called
and are of stays when they are linked.

Key theorems: `MappingDecl.setsStep_keeps`, `Model.gists_of_linkSet`, `MappingDecl.linkSets_table`.
-/
import ModelGraph.Proofs.Build.Simulation
import ModelGraph.Proofs.Mapping.Checks

namespace ModelGraph

open Model Build SetImplementation

variable {m : Model} {S : Model → Model → Prop}

theorem Model.Sees.includes [Sees S Mapping.frame] {m' : Model} (h : S m m') : m'.Includes = m.Includes := by
  funext x y
  rw [Includes, Includes, includesOf h]

namespace MappingDecl

theorem structureStep_keeps (d : MappingDecl) : d.structureStep.Ensures m fun _ m' =>
    m.LikeIn (fun _ _ => ()) m' ∧ ∀ q, q ≠ d.header.path → m'.mapping? q = m.mapping? q := by
  refine d.structureStep_table.mono ?_
  rintro _ _ ⟨includes, enumMappings, -, -, rfl⟩
  exact ⟨likeIn_updateMapping fun _ _ => rfl, fun q hq => by rw [mapping?_updateMapping, if_neg hq]⟩

theorem setsStep_keeps (d : MappingDecl) : d.setsStep.Ensures m fun _ m' =>
    m.LikeIn (fun _ => Mapping.frame) m' ∧ ∀ q, q ≠ d.header.path → m'.mapping? q = m.mapping? q := by
  unfold setsStep
  simp only [ensures_bind, ensures_modify]
  refine ((made_mapM fun s _ => s.build_made _ _).notes m).mono fun sets n hn => ?_
  refine ⟨(LikeIn.of_noted hn).trans (likeIn_updateMapping fun _ _ => rfl), fun q hq => ?_⟩
  rw [mapping?_updateMapping, if_neg hq, hn.mapping?]

end MappingDecl

theorem Model.linkSet_gist {path : String} {s s' : SetImplementation} (h : m.linkSet path s = .ok s') :
    s'.gist = s.gist := by
  obtain ⟨halike, hclass, hroot⟩ := linkSet_keeps h
  rw [gist, gist, halike.id, halike.origin, hclass, hroot]

theorem Model.gists_of_linkSet {path : String} {sets linked : List SetImplementation}
    (h : sets.mapM (m.linkSet path) = .ok linked) :
    linked.map gist = sets.map gist := by
  rw [Result.mapM_eq_ok] at h
  induction h with
  | nil => rfl
  | cons hs _ ih => rw [List.map_cons, List.map_cons, linkSet_gist hs, ih]

namespace MappingDecl

/-- What linking a mapping does: it changes the class mappings, association mappings and tests
of that mapping, and the class mappings are called and are of what they were. -/
theorem linkSets_table (d : MappingDecl) : d.linkSets.Ensures m fun sets m' =>
    ∃ assocMappings tests,
      ((m.setsOf d.header.path).map (·.2)).mapM (m.linkSet d.header.path) = .ok sets ∧
      m.LikeIn (fun _ => Mapping.gist) m' ∧
      ∀ q, m'.mapping? q = if q = d.header.path then
        (m.mapping? q).map fun x => { x with sets, assocMappings, tests } else m.mapping? q := by
  unfold linkSets
  simp only [ensures_bind, ensures_get, ensures_liftM, ensures_modify, ensures_pure]
  intro sets hsets
  refine Ensures.mono ((made_mapM fun a _ => a.build_made _).notes _) fun assocMappings m₁ h₁ => ?_
  refine Ensures.mono ((made_mapM fun t _ => t.build_made _).notes _) fun tests m₂ h₂ => ?_
  have hgist : ∀ x, m.mapping? d.header.path = some x →
      Mapping.gist { x with sets := sets } = Mapping.gist x := by
    intro x hx
    rw [setsOf_map_snd hx] at hsets
    rw [Mapping.gist, gists_of_linkSet hsets]
    rfl
  refine ⟨assocMappings, tests, hsets, ?_, fun q => ?_⟩
  · have linked : m.LikeIn (fun _ => Mapping.gist) m₁ := (likeIn_updateMapping hgist).trans (.of_noted h₁)
    have associated : m₁.LikeIn (fun _ => Mapping.gist) m₂ := by
      refine LikeIn.trans ?_ (.of_noted h₂)
      exact likeIn_updateMapping fun _ _ => rfl
    exact linked.trans (associated.trans (likeIn_updateMapping fun _ _ => rfl))
  · rw [mapping?_updateMapping, h₂.mapping?, mapping?_updateMapping, h₁.mapping?, mapping?_updateMapping]
    by_cases hq : q = d.header.path
    · simp [hq, Function.comp_def]
    · simp [hq]

end MappingDecl
end ModelGraph
