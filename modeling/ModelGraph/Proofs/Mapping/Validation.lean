/-
# The checks of mappings in any order

Once all mappings are linked, their checks read the model and warn, and change nothing
else. So they go through in any order of the mappings if they do in one, also in a model
with its elements in another order.

Key theorems: `checkIncludeCycles_perm`, `checkMappings_simulates`, `checkExtensions_simulates`.
-/
import ModelGraph.Proofs.Build.Simulation
import ModelGraph.Proofs.Mapping.Includes

namespace ModelGraph

open Model Build Relation Result List

variable {m k : Model} {as bs : List MappingDecl}

/-! ### Includes as they are written -/

theorem find?_perm {α β : Type} [DecidableEq β] {key : α → β} {l l' : List α} (hperm : l.Perm l')
    (hnodup : (l.map key).Nodup) (b : β) : l'.find? (fun a => key a = b) = l.find? fun a => key a = b := by
  rcases h : l.find? (fun a => key a = b) with _ | a
  · exact List.find?_eq_none.2 fun a ha => List.find?_eq_none.1 h a (hperm.mem_iff.2 ha)
  · obtain rfl : key a = b := by simpa using List.find?_some h
    exact find?_of_nodup ((hperm.map key).nodup_iff.1 hnodup) (hperm.mem_iff.1 (mem_of_find?_eq_some h))

theorem writtenIncludes_perm (hperm : as.Perm bs) (hnodup : (as.map (·.header.path)).Nodup) :
    writtenIncludes bs = writtenIncludes as := by
  have hpaths : (bs.map (·.header.path)).contains = (as.map (·.header.path)).contains := by
    funext p
    rw [Bool.eq_iff_iff, contains_iff_mem, contains_iff_mem, (hperm.map _).mem_iff]
  unfold writtenIncludes
  simp only [find?_perm hperm hnodup, hpaths]

/-- Cycles are found whatever the order, or not. -/
theorem checkIncludeCycles_perm (hperm : as.Perm bs) (hnodup : (as.map (·.header.path)).Nodup)
    (h : checkIncludeCycles as = .ok ()) : checkIncludeCycles bs = .ok () := by
  have hnone : Search.firstCycle? (writtenIncludes as) (as.length + 1) (as.map (·.header.path)) = none :=
    Document.firstCycle?_of_check (d := { mappings := as }) h
  unfold checkIncludeCycles
  simp only [writtenIncludes_perm hperm hnodup]
  have hclosed := Document.closed_writtenIncludes bs
  rw [writtenIncludes_perm hperm hnodup] at hclosed
  have hlength (cs : List MappingDecl) : (cs.map (·.header.path)).length < cs.length + 1 := by simp
  rcases Search.firstCycle?_cases (Document.closed_writtenIncludes as) (hlength as) with
    ⟨hacyclic, -⟩ | ⟨_, _, _, _, -, -, hwalk, -⟩
  · rw [Search.firstCycle?_eq_none hclosed (hlength bs) fun p hp => hacyclic p ((hperm.map _).mem_iff.2 hp)]
  · cases hnone.symm.trans hwalk

/-! ### Checks in any order -/

theorem Result.forM_perm {α : Type} {f : α → Result Unit} {l l' : List α} (hperm : l.Perm l')
    (h : l.forM f = .ok ()) : l'.forM f = .ok () :=
  forM_eq_ok.2 fun a ha => forM_eq_ok.1 h a (hperm.mem_iff.2 ha)

theorem Build.simulates_liftM_of_ok {R : Model → Model → Prop} {r r' : Result Unit}
    (h : r = .ok () → r' = .ok ()) : Simulates R (liftM r : Build Unit) (liftM r') :=
  fun m k hm => ensures_liftM.2 fun a ha => ⟨k, by rw [h ha]; rfl, hm⟩

/-- **The checks of mappings go through in any order.** -/
theorem checkMappings_simulates (hperm : as.Perm bs) (hnodup : (as.map (·.header.path)).Nodup) :
    Simulates Same (checkMappings as) (checkMappings bs) := by
  have hnew : Simulates Same (as.forM fun d => checkNewInstances d.header.path d.header.span)
      (bs.forM fun d => checkNewInstances d.header.path d.header.span) :=
    simulates_perm_of_notes hperm hnodup.of_map (fun _ => (checkNewInstances_made _ _).notes) fun _ =>
      (checkNewInstances_made _ _).simulates
  have hids : Simulates Same (as.forM fun d => checkIds d.header.path d.header.span)
      (bs.forM fun d => checkIds d.header.path d.header.span) :=
    simulates_perm_of_notes hperm hnodup.of_map (fun _ => (checkIds_made _ _).notes) fun _ => (checkIds_made _ _).simulates
  refine (simulates_liftM_of_ok (checkIncludeCycles_perm hperm hnodup)).bind fun _ => ?_
  refine (simulates_liftM_of_ok (forM_perm hperm)).bind fun _ => hids.bind fun _ => ?_
  refine simulates_get fun m k h => ?_
  rw [h.options, Sees.checkRoots h]
  exact simulates_ite ((simulates_liftM_of_ok (forM_perm hperm)).bind fun _ => hnew) hnew

/-! ### Includes of databases -/

theorem Model.Distinct.databases (h : m.Distinct) :
    m.elements.filter (fun e => (m.database? e.path).isSome) =
      (m.elements.filter Element.isListed).filter Element.isDatabase := by
  rw [filter_filter]
  refine filter_congr fun e he => ?_
  have hdatabase : (m.database? e.path).isSome = e.isDatabase := by
    rw [database?, h.declared? he]
    obtain ⟨name, path, span, annotations, content⟩ := e
    cases content <;> rfl
  rw [hdatabase]
  obtain ⟨name, path, span, annotations, content⟩ := e
  cases content <;> rfl

/-- The checks of extensions go through in a model with its elements in another order. -/
theorem checkExtensions_simulates :
    Simulates (fun m k => m.Same k ∧ m.Distinct) checkExtensions checkExtensions := by
  refine simulates_get fun m k h => ?_
  rw [h.1.options]
  refine simulates_forM fun x _ => ?_
  rintro m k ⟨h, hd⟩ _ n hn
  have hdatabases : k.elements.filter (fun e => (k.database? e.path).isSome) =
      m.elements.filter fun e => (m.database? e.path).isSome := by
    rw [hd.databases, (h.distinct.2 hd).databases, h.listed]
  have hincludes : k.databaseIncludes = m.databaseIncludes := by
    funext p
    rw [databaseIncludes, databaseIncludes, h.database?]
  unfold Relational.checkIncludes at hn ⊢
  simp only at hn
  split at hn
  · cases hn
  · rename_i hnone
    cases hn
    refine ⟨k, ?_, h, hd⟩
    simp only [hdatabases, hincludes, h.length, hnone]

end ModelGraph
