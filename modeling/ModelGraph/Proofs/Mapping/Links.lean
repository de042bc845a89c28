/-
# References between class mappings

Class mappings are built with the ids of what they refer to. Linking a mapping turns the
ids in its operations into references, and each leads to a class mapping of a mapping that
is included, directly or through others, or of the mapping itself. So as long as mappings
are linked one by one, references start in linked mappings and stay within what these
include.

Key definitions: `SetImplementation.references`, `Model.Unlinked`.
Key theorems: `Model.references_linkSet`, `MappingDecl.linkSets_refers`, `Model.exists_leads_of_mem`.
-/
import ModelGraph.Proofs.Mapping.Steps
import ModelGraph.Proofs.Mapping.Typing

namespace ModelGraph

open Model Build Relation List Option Result

variable {path id : String} {s s' : SetImplementation} {p : PropertyMapping}

variable {m m' : Model}

/-! ### The references of one class mapping -/

namespace SetImplementation

/-- The parameters of an operation, behind aggregations: the ids as they are written, with
what they lead to. -/
def parameters (s : SetImplementation) : List (String × Option SetRef) :=
  match s.core with
  | .operation _ _ _ parameters _ => parameters
  | _ => []

/-- What an operation refers to, behind aggregations. -/
def references (s : SetImplementation) : List SetRef :=
  match s.core with
  | .operation _ _ _ parameters _ => parameters.filterMap (·.2)
  | _ => []

theorem references_eq (s : SetImplementation) : s.references = s.parameters.filterMap (·.2) := by
  unfold references parameters
  split <;> rfl

theorem references_withBase (f : SetBase → SetBase) (s : SetImplementation) :
    (s.withBase f).references = s.references := by
  cases s <;> rfl

end SetImplementation

theorem Model.reaches_of_setById? {r : SetRef}
    (h : m.setById? path id = some (r, s)) : ReflTransGen m.Includes path r.mapping := by
  obtain ⟨q, hq, hmem⟩ := mem_flatMap.1 (mem_of_find?_eq_some h)
  rw [(mem_setsOf.1 hmem).1]
  rcases mem_cons.1 hq with rfl | hq
  · exact .refl
  · have hvisit := mem_reverse.1 (mem_of_mem_drop hq)
    rcases Search.visit_sound _ _ _ _ _ hvisit with hnil | hreach
    · cases hnil
    · exact hreach

theorem Model.parameters_linkSet : ∀ {s s' : SetImplementation}, m.linkSet path s = .ok s' →
    ∀ p ∈ s'.parameters, ∃ found, m.setById? path p.1 = some found ∧ p.2 = some found.1
  | .instances b source filter, s', h, p, hp => by
    cases h
    cases hp
  | .relational b database table isDistinct, s', h, p, hp => by
    cases h
    cases hp
  | .operation b operator function parameters validation, s', h, p, hp => by
    obtain ⟨linked, hlinked, h⟩ := bind_eq_ok.1 h
    cases h
    obtain ⟨q, -, hq⟩ := exists_of_mapM hlinked hp
    unfold linkParameter at hq
    split at hq
    · rename_i found hfound
      cases hq
      exact ⟨found, hfound, rfl⟩
    · cases hq
  | .aggregation b main aggregates, s', h, p, hp => by
    obtain ⟨main', hmain, h⟩ := bind_eq_ok.1 h
    obtain ⟨aggregates', -, h⟩ := bind_eq_ok.1 h
    cases h
    exact parameters_linkSet hmain p hp

/-- A linked operation refers to class mappings that its mapping sees. -/
theorem Model.references_linkSet (h : m.linkSet path s = .ok s') :
    ∀ r ∈ s'.references, ReflTransGen m.Includes path r.mapping := by
  intro r hr
  rw [SetImplementation.references_eq] at hr
  obtain ⟨p, hp, hpr⟩ := mem_filterMap.1 hr
  obtain ⟨found, hfound, heq⟩ := parameters_linkSet h p hp
  cases heq.symm.trans hpr
  exact reaches_of_setById? hfound

/-! ### Before linking -/

theorem ClassMappingDecl.build_unlinked (path : String) : ∀ (d : ClassMappingDecl) (fallback : String),
    (build path d fallback).Compiles m fun s => s.references = [] := by
  refine BuildLaws.compiles ⟨?_, fun _ _ hs _ => hs⟩
  rintro a _ _ k b _ - - (- | ⟨hparameters, -⟩ | -)
  · rfl
  · exact filterMap_eq_nil_iff.2 hparameters
  · rfl

theorem markRoots_unlinked {sets : List SetImplementation} (h : ∀ s ∈ sets, s.references = []) :
    ∀ s ∈ markRoots sets, s.references = [] := by
  intro s hs
  obtain ⟨t, ht, rfl⟩ := mem_map.1 hs
  split
  · rw [SetImplementation.references_withBase, h t ht]
  · exact h t ht

/-! ### The references of a model -/

namespace Model

/-- No class mapping refers to another one. -/
def Unlinked (m : Model) : Prop := ∀ q x, m.mapping? q = some x → ∀ s ∈ x.sets, s.references = []

/-- References start in the given mappings and stay within what these include. -/
def RefersWithin (m : Model) (linked : String → Prop) : Prop :=
  ∀ q x, m.mapping? q = some x → ∀ s ∈ x.sets, ∀ r ∈ s.references,
    linked q ∧ ReflTransGen m.Includes q r.mapping

theorem Unlinked.refersWithin (h : m.Unlinked) (linked : String → Prop) : m.RefersWithin linked := by
  intro q x hx s hs r hr
  rw [h q x hx s hs] at hr
  cases hr

theorem Unlinked.update (h : m.Unlinked) {p : String} {f : Mapping → Mapping}
    (hm' : ∀ q, m'.mapping? q = if q = p then (m.mapping? q).map f else m.mapping? q)
    (hf : ∀ x, (∀ s ∈ x.sets, s.references = []) → ∀ s ∈ (f x).sets, s.references = []) : m'.Unlinked := by
  intro q y hy
  rw [hm'] at hy
  split at hy
  · obtain ⟨x, hx, rfl⟩ := map_eq_some_iff.1 hy
    exact hf x (h q x hx)
  · exact h q y hy

end Model

namespace MappingDecl

theorem structureStep_unlinked (d : MappingDecl) (h : m.Unlinked) :
    d.structureStep.Ensures m fun _ m' => m'.Unlinked := by
  refine d.structureStep_table.mono ?_
  rintro _ _ ⟨includes, enumMappings, -, -, rfl⟩
  exact h.update (fun q => mapping?_updateMapping _ _ q) fun x hx => hx

theorem setsStep_unlinked (d : MappingDecl) (h : m.Unlinked) :
    d.setsStep.Ensures m fun _ m' => m'.Unlinked := by
  refine d.setsStep_table.mono ?_
  rintro _ m' ⟨sets, n, hrun, htable⟩
  refine h.update htable fun x _ => markRoots_unlinked ?_
  exact ((compiles_mapM fun s _ => s.build_unlinked _ _).ensures _ _ hrun).2

/-- Linking a mapping adds references that start in it. -/
theorem linkSets_refers (d : MappingDecl) {linked : String → Prop} (h : m.RefersWithin linked) :
    d.linkSets.Ensures m fun _ m' => m'.RefersWithin fun q => linked q ∨ q = d.header.path := by
  refine d.linkSets_table.mono ?_
  rintro sets m' ⟨assocMappings, tests, hsets, hlike, htable⟩ q y hy s hs r hr
  rw [Sees.includes hlike]
  rw [htable] at hy
  split at hy
  · rename_i hq
    subst hq
    obtain ⟨x, hx, rfl⟩ := map_eq_some_iff.1 hy
    obtain ⟨t, -, ht⟩ := exists_of_mapM hsets hs
    exact ⟨.inr rfl, references_linkSet ht r hr⟩
  · obtain ⟨hl, hreach⟩ := h q y hy s hs r hr
    exact ⟨.inl hl, hreach⟩

end MappingDecl

/-! ### Sources -/

namespace Model

variable {n k : Model} {r r' : SetRef} {s : SetImplementation} {t : TypeRef}

theorem leads_of_mem (hs : n.setAt? r = some s) (hr : r' ∈ s.references) (h : (n.setAt? r').isSome) :
    n.Leads r r' := by
  unfold SetImplementation.references at hr
  split at hr
  · rename_i base operator function parameters validation hcore
    obtain ⟨⟨id, ref⟩, hmem, href⟩ := mem_filterMap.1 hr
    cases href
    exact ⟨s, base, operator, function, id, parameters, validation, hs, hcore, hmem, h⟩
  · cases hr

theorem Leads.exists_mem (h : n.Leads r r') :
    ∃ s, n.setAt? r = some s ∧ r' ∈ s.references ∧ (n.setAt? r').isSome := by
  obtain ⟨s, base, operator, function, id, parameters, validation, hs, hcore, hmem, hsome⟩ := h
  refine ⟨s, hs, ?_, hsome⟩
  unfold SetImplementation.references
  rw [hcore]
  exact mem_filterMap.2 ⟨_, hmem, rfl⟩

/-- Every source is found at the end of references. -/
theorem exists_leads_of_mem : ∀ {depth : Nat} {r : SetRef} {s : SetImplementation}, n.setAt? r = some s →
    t ∈ n.sourceTypesWithin depth s →
    ∃ r' s', ReflTransGen n.Leads r r' ∧ n.setAt? r' = some s' ∧ s'.origin? = some t
  | 0, _, _, _, ht => by cases ht
  | depth + 1, r, s, hs, ht => by
    unfold sourceTypesWithin at ht
    split at ht
    · rename_i base source filter hcore
      refine ⟨r, s, .refl, hs, ?_⟩
      unfold SetImplementation.origin?
      rw [hcore]
      simpa using ht
    · rename_i base operator function parameters validation hcore
      obtain ⟨⟨id, ref⟩, hmem, ht⟩ := mem_flatMap.1 (mem_distinct.1 ht)
      rcases ref with _ | r₁
      · cases ht
      rcases hs₁ : n.setAt? r₁ with _ | s₁
      · simp [hs₁] at ht
      · simp only [bind_some, hs₁] at ht
        obtain ⟨r', s', hreach, hs', horigin⟩ := exists_leads_of_mem hs₁ ht
        exact ⟨r', s', .head ⟨s, base, operator, function, id, parameters, validation, hs, hcore, hmem,
          by rw [hs₁]; rfl⟩ hreach, hs', horigin⟩
    · cases ht

variable {S : Model → Model → Prop} [Sees S Mapping.gist]

theorem Sees.setAt? (h : S n k) (r : SetRef) : (k.setAt? r).map (·.gist) = (n.setAt? r).map (·.gist) := by
  unfold Model.setAt?
  rcases map_eq_cases (Sees.map (f := Mapping.gist) h r.mapping) with ⟨hn, hk⟩ | ⟨x, y, hn, hk, hx⟩ <;> rw [hn, hk]
  have hsets : y.sets.map SetImplementation.gist = x.sets.map SetImplementation.gist := congrArg Prod.snd hx
  have hget := congrArg (·[r.index]?) hsets
  simpa [getElem?_map] using hget

/-- If references within what a mapping includes are kept, then so are the sources of what it
sees. -/
theorem Sees.sourceTypes_subset (h : S n k) (hleads : ∀ x y, ReflTransGen n.Includes path x.mapping → k.Leads x y →
      n.Leads x y ∧ ReflTransGen n.Includes path y.mapping) (hr : ReflTransGen n.Includes path r.mapping)
    (hs : n.setAt? r = some s) (hs' : k.setAt? r = some s') (ht : t ∈ k.sourceTypes s') : t ∈ n.sourceTypes s := by
  have reached : ∀ {z}, ReflTransGen k.Leads r z →
      ReflTransGen n.Leads r z ∧ ReflTransGen n.Includes path z.mapping := by
    intro z hz
    induction hz with
    | refl => exact ⟨.refl, hr⟩
    | tail _ hyz ih =>
      have hlead := hleads _ _ ih.2 hyz
      exact ⟨ih.1.tail hlead.1, hlead.2⟩
  obtain ⟨r', u', hreach, hu', horigin⟩ := exists_leads_of_mem hs' ht
  have hgists := Sees.setAt? h r'
  rw [hu'] at hgists
  obtain ⟨u, hu, hgistu⟩ := map_eq_some_iff.1 hgists.symm
  have hsame : u.origin? = u'.origin? := congrArg (fun g => g.2.2.2) hgistu
  exact mem_sourceTypes (reached hreach).1 hs hu (hsame.trans horigin)

theorem Sees.expectedTypes_subset [Sight S] (h : S n k)
    (hleads : ∀ x y, ReflTransGen n.Includes path x.mapping → k.Leads x y →
      n.Leads x y ∧ ReflTransGen n.Includes path y.mapping) {u : RawType} (hu : u ∈ k.expectedTypes path p) : u ∈ n.expectedTypes path p := by
  unfold expectedTypes at hu ⊢
  by_cases hclass : p.property.type.raw.class?.isSome = true
  · rw [if_pos hclass] at hu ⊢
    rcases map_eq_cases (Sees.setById? h path p.targetId) with
      ⟨hn, hk⟩ | ⟨⟨r, s⟩, ⟨r', s'⟩, hn, hk, hs⟩ <;> rw [hk] at hu
    · cases hu
    · obtain rfl : r' = r := (Prod.mk.inj hs).1
      obtain ⟨t, ht, rfl⟩ := mem_map.1 hu
      rw [hn]
      exact mem_map_of_mem (Sees.sourceTypes_subset h hleads (reaches_of_setById? hn)
        (setAt?_of_setById? hn) (setAt?_of_setById? hk) ht)
  · rwa [if_neg hclass] at hu ⊢

theorem checkProperty_of_subset (hsub : k.isSubType = n.isSubType)
    (hexpected : ∀ u ∈ k.expectedTypes path p, u ∈ n.expectedTypes path p) (h : n.checkProperty path id p = .ok ()) : k.checkProperty path id p = .ok () := by
  rcases hlast : p.transform.bind Expr.lastOfBody? with _ | last
  · rw [checkProperty, hlast]
  obtain ⟨hmultiplicity, htypes⟩ := fits_of_checkProperty h hlast
  have hfit : (k.expectedTypes path p).find? (fun t => !k.isSubType last.raw t && !k.isSubType t last.raw) =
      none := by
    refine find?_eq_none.2 fun u hu => ?_
    rw [hsub]
    rcases htypes u (hexpected u hu) with hrel | hrel <;> simp [hrel]
  rw [checkProperty, hlast]
  simp only [hfit, hmultiplicity, if_true]

theorem checkSet_of_subset (hsub : k.isSubType = n.isSubType)
    (hexpected : ∀ p, ∀ u ∈ k.expectedTypes path p, u ∈ n.expectedTypes path p) (h : n.checkSet path s = .ok ()) : k.checkSet path s = .ok () := by
  cases s with
  | instances b source filter =>
    exact forM_eq_ok.2 fun p hp =>
      checkProperty_of_subset hsub (hexpected p) (forM_eq_ok.1 h p hp)
  | relational b database table isDistinct => exact h
  | operation b operator function parameters validation => rfl
  | aggregation b main aggregates => rfl

end Model
end ModelGraph
