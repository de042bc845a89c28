/-
# The table of mappings through a build

The passes over mappings go over the declared mappings in order. Each step changes the
entry of its own mapping in the table, and no two mappings have one path. So an entry is
what its steps made it, whichever mappings come before and after.

Key theorems: `Document.Progress.mapping?_isSome`, `Document.Progress.structured_at`,
`Document.Progress.linked_structure`.
-/
import ModelGraph.Proofs.Build.Passes

namespace ModelGraph

open Model Build Option Pass Function Context

variable {m m' : Model} {K : Option Category → Prop} {d : Document} {a : MappingDecl}
  {step : MappingDecl → Build Unit} {q pass : String} {i : Nat}

/-! ### What one step does to the table -/

namespace MappingDecl

theorem declare_table (d : MappingDecl) : d.declare.Ensures m fun _ m' =>
    ¬ m.Has d.header.path .mapping ∧
      ∀ q, m'.mapping? q = if q = d.header.path then some {} else m.mapping? q := by
  unfold declare
  rw [ensures_register]
  intro m' h
  obtain ⟨hn, he, -⟩ := register_ok h
  have hd : m.declared? d.header.path = none := by
    unfold element? at hn
    split at hn
    · cases hn
    · assumption
  refine ⟨?_, fun q => ?_⟩
  · rintro ⟨e, hx, -⟩
    rw [hd] at hx
    cases hx
  rw [mapping?, mapping?, declared?_append he]
  by_cases hq : q = d.header.path
  · subst hq
    have hpath : Path.join d.header.package d.header.name = d.header.path := rfl
    simp [hd, hpath]
  · have : ¬ Path.join d.header.package d.header.name = q := fun h => hq h.symm
    simp [hq, this]

theorem structureStep_table (d : MappingDecl) : d.structureStep.Ensures m fun _ m' =>
    ∃ includes enumMappings, buildIncludes (Context.of m d.header.path) d.includes [] = .ok includes ∧
      d.enumMappings.mapM (·.build (Context.of m d.header.path)) = .ok enumMappings ∧
      m' = m.updateMapping d.header.path fun x => { x with includes, enumMappings } := by
  unfold structureStep
  simp only [ensures_bind, ensures_context, ensures_liftM, ensures_modify]
  exact fun includes hi enumMappings he => ⟨includes, enumMappings, hi, he, rfl⟩

theorem setsStep_table (d : MappingDecl) : d.setsStep.Ensures m fun _ m' =>
    ∃ sets n, d.classMappings.mapM (fun s => s.build d.header.path "") m = .ok (sets, n) ∧
      ∀ q, m'.mapping? q = if q = d.header.path then
        (m.mapping? q).map fun x => { x with sets := markRoots sets } else m.mapping? q := by
  unfold setsStep
  simp only [ensures_bind, ensures_modify]
  intro sets n hrun
  refine ⟨sets, n, hrun, fun q => ?_⟩
  rw [mapping?_updateMapping, ((made_mapM fun s _ => s.build_made _ _).notes m _ _ hrun).mapping?]

/-- The class mappings of a mapping are linked with each other and those it includes,
and checked as they then are. -/
theorem linkStep_table (d : MappingDecl) : d.linkStep.Ensures m fun _ m' =>
    ∃ sets assocMappings tests,
      ((m.setsOf d.header.path).map (·.2)).mapM (m.linkSet d.header.path) = .ok sets ∧
      (∀ q, m'.mapping? q = if q = d.header.path then
        (m.mapping? q).map fun x => { x with sets, assocMappings, tests } else m.mapping? q) ∧
      ∀ s ∈ sets, m'.checkSet d.header.path s = .ok () := by
  unfold linkStep
  simp only [ensures_bind, ensures_get, ensures_liftM, ensures_modify]
  intro sets hsets
  refine Ensures.mono ((made_mapM fun a _ => a.build_made _).notes _) fun assocMappings m₁ h₁ => ?_
  refine Ensures.mono ((made_mapM fun t _ => t.build_made _).notes _) fun tests m₂ h₂ => ?_
  intro _ hcheck
  refine ⟨sets, assocMappings, tests, hsets, fun q => ?_, Result.forM_eq_ok.1 hcheck⟩
  rw [mapping?_updateMapping, h₂.mapping?, mapping?_updateMapping, h₁.mapping?, mapping?_updateMapping]
  by_cases hq : q = d.header.path
  · simp [hq, comp_def]
  · simp [hq]

theorem setsStep_imports (x : MappingDecl) : x.setsStep.Ensures m fun _ m' => m'.imports = m.imports := by
  unfold setsStep
  simp only [ensures_bind, ensures_modify]
  exact ((made_mapM fun s _ => s.build_made _ _).notes m).mono fun _ _ h => h.imports

theorem linkStep_imports (x : MappingDecl) : x.linkStep.Ensures m fun _ m' => m'.imports = m.imports := by
  unfold linkStep
  simp only [ensures_bind, ensures_get, ensures_liftM, ensures_modify]
  intro sets _
  refine Ensures.mono ((made_mapM fun a _ => a.build_made _).notes _) fun _ m₁ h₁ => ?_
  refine Ensures.mono ((made_mapM fun t _ => t.build_made _).notes _) fun _ m₂ h₂ => ?_
  intro _ _
  exact h₂.imports.trans h₁.imports

end MappingDecl

/-! ### What passes do to the table -/

namespace Document

def mappingPaths (d : Document) : List String := d.mappings.map (·.header.path)

theorem mem_mappingPaths (h : a ∈ d.mappings) : a.header.path ∈ d.mappingPaths := List.mem_map_of_mem h

def TouchesOwn (step : MappingDecl → Build Unit) : Prop := ∀ a n, (step a).Ensures n fun _ n' =>
  (∀ q, q ≠ a.header.path → n'.mapping? q = n.mapping? q) ∧ n'.imports = n.imports

theorem TouchesOwn.each {name : String} {decls : List MappingDecl}
    (h : TouchesOwn step) (hq : q ∉ decls.map (·.header.path))
    (hrun : (each name decls (·.header) step).run m = .ok ((), m')) : m'.mapping? q = m.mapping? q := by
  refine ensures_each_keeps (I := fun n => n.mapping? q = m.mapping? q) rfl
    (fun a ha n hn => (h a n).mono fun _ n' hn' => ?_) _ _ hrun
  rw [hn'.1 q fun e => hq (e ▸ List.mem_map_of_mem ha), hn]

theorem structureStep_other : TouchesOwn (·.structureStep) := fun a _ => a.structureStep_table.mono fun _ n' h => by
  obtain ⟨_, _, _, _, rfl⟩ := h
  exact ⟨fun q hq => by rw [mapping?_updateMapping, if_neg hq], rfl⟩

theorem setsStep_other : TouchesOwn (·.setsStep) := fun a _ =>
  (a.setsStep_table.and a.setsStep_imports).mono fun _ n' h => by
    obtain ⟨⟨_, _, _, h⟩, himports⟩ := h
    exact ⟨fun q hq => by rw [h, if_neg hq], himports⟩

theorem linkStep_other : TouchesOwn (·.linkStep) := fun a _ =>
  (a.linkStep_table.and a.linkStep_imports).mono fun _ n' h => by
    obtain ⟨⟨_, _, _, _, h, _⟩, himports⟩ := h
    exact ⟨fun q hq => by rw [h, if_neg hq], himports⟩

/-- **One step of a pass over mappings.** It finds the entry of its mapping as it was before the pass,
and leaves it as it is after the pass. -/
theorem At.own_entry {o : Options} {next first : String}
    {x : MappingDecl} (h : d.At o pass 0 m) (hstep : TouchesOwn step) (h' : d.At o next 0 m')
    (hnext : ∀ b, ((passNames b).takeWhile (· != next)).getLast? = some pass) (hfirst : declaring pass = some first)
    (hsteps : d.steps pass = stepsOver d.mappings (·.header) (some .mapping) step) (hx : d.mappings[i]? = some x) :
    ∃ n n', d.At o pass i n ∧ step x n = .ok ((), n') ∧ n.mapping? x.header.path = m.mapping? x.header.path ∧
      m'.mapping? x.header.path = n'.mapping? x.header.path ∧ m'.imports = n.imports := by
  obtain ⟨n, n', hat, hrun, hbefore, hafter⟩ := At.around_own
    (R := fun m n => n.mapping? x.header.path = m.mapping? x.header.path ∧ n.imports = m.imports) (fun _ => ⟨rfl, rfl⟩)
    (fun h h' => ⟨h'.1.trans h.1, h'.2.trans h.2⟩) h (h'.last hnext) hfirst hsteps hx fun {_ y k _} _ hne _ hrun =>
      ⟨(hstep y k _ _ hrun).1 _ hne.symm, (hstep y k _ _ hrun).2⟩
  exact ⟨n, n', hat, hrun, hbefore.1, hafter.1, hafter.2.trans (hstep x n _ _ hrun).2⟩

namespace Progress

variable {d : Document} {o : Options}

section

variable (t : d.Progress o m)
include t

theorem start_mapping? (q : String) : t.start.mapping? q = none := by
  have hgrows : Grows (within [.profile, .classType, .enumeration, .function, .measure, .unit, .association, .store])
      { options := o } t.start := (d.at_start o).grows t.startAt (by decide) (fun _ => by decide) (by decide)
  exact hgrows.mapping? (by simp [within]) q

theorem declared_table (q : String) :
    t.declared.mapping? q = if q ∈ d.mappingPaths then some {} else none := by
  refine ensures_each (J := fun pre n => n.mapping? q = if q ∈ pre.map (·.header.path) then some {} else none)
    (by simp [t.start_mapping?]) ?_ _ _ t.declareMappings
  rintro pre a post _ n htable
  refine a.declare_table.mono ?_
  rintro _ n' ⟨-, hn'⟩
  rw [hn', htable]
  by_cases hq : q = a.header.path <;> simp [hq]

theorem paths_nodup : d.mappingPaths.Nodup := t.declaredAt.paths_nodup rfl rfl

theorem grows {n : Model} {cs : List Category} (h : d.At o pass i n)
    (hbefore : ∀ b, pass ∈ (passNames b).takeWhile (· != "validators.mappings"))
    (hpass : i < (d.steps pass).length → touched pass ⊆ cs)
    (hcs : ∀ b, ∀ x ∈ (((passNames b).takeWhile (· != "validators.mappings")).dropWhile (· != pass)).tail,
      touched x ⊆ cs) : Grows (within cs) n m :=
  (h.grows t.servedAt hbefore hpass hcs).trans t.noted.grows

theorem final_mapping? (q : String) : m.mapping? q = t.linked.mapping? q :=
  (t.grows t.linkedAt (by decide) (fun _ => by decide) (by decide) : Grows (within [.connection, .runtime]) _ _).mapping?
    (by simp [within]) q

/-- Class mappings are built and linked without a change of what is included and of enumeration
mappings. -/
theorem linked_structure (q : String) :
    (t.linked.mapping? q).map (fun x => (x.includes, x.enumMappings)) =
      (t.structured.mapping? q).map fun x => (x.includes, x.enumMappings) := by
  have hsets : (t.mapped.mapping? q).map (fun x => (x.includes, x.enumMappings)) =
      (t.structured.mapping? q).map fun x => (x.includes, x.enumMappings) := by
    refine ensures_each_keeps (I := fun n => (n.mapping? q).map _ = _) rfl
      (fun a _ n hn => a.setsStep_table.mono fun _ n' h => ?_) _ _ t.mapSets
    obtain ⟨sets, _, _, h⟩ := h
    rw [h, ← hn]
    split <;> simp [comp_def]
  refine ensures_each_keeps (I := fun n => (n.mapping? q).map _ = _) hsets
    (fun a _ n hn => a.linkStep_table.mono fun _ n' h => ?_) _ _ t.linkMappings
  obtain ⟨sets, _, _, _, h, _⟩ := h
  rw [h, ← hn]
  split <;> simp [comp_def]

/-- The mappings of the model are those of the document. -/
theorem mapping?_isSome : m.Has q .mapping ↔ q ∈ d.mappingPaths := by
  have hentry : ∀ n : Model, n.Has q .mapping ↔ (n.mapping? q).isSome = true := fun n => by
    rw [has_mapping, isSome_iff_exists]
  have hstructured : (t.structured.mapping? q).isSome = (t.declared.mapping? q).isSome := by
    refine ensures_each_keeps (I := fun n => (n.mapping? q).isSome = _) rfl
      (fun a _ n hn => a.structureStep_table.mono fun _ n' h => ?_) _ _ t.structureMappings
    obtain ⟨_, _, _, _, rfl⟩ := h
    rw [mapping?_updateMapping, ← hn]
    split <;> simp
  have hlinked := congrArg Option.isSome (t.linked_structure q)
  rw [isSome_map, isSome_map] at hlinked
  rw [hentry, t.final_mapping?, hlinked, hstructured, t.declared_table]
  by_cases hq : q ∈ d.mappingPaths <;> simp [hq]

/-- What a mapping includes and its enumeration mappings are what the declaration names, looked up in
a model with mappings of the document only. -/
theorem structured_at (ha : a ∈ d.mappings) :
    ∃ n x i, (∀ q, n.Has q .mapping → q ∈ d.mappingPaths) ∧ m.mapping? a.header.path = some x ∧
      MappingDecl.buildIncludes (Context.of n a.header.path) a.includes [] = .ok x.includes ∧
      a.enumMappings.mapM (·.build (Context.of n a.header.path)) = .ok x.enumMappings ∧
      d.At o "mappings.structure" i n ∧ t.structured.imports = n.imports := by
  obtain ⟨i, hi⟩ := List.getElem?_of_mem ha
  obtain ⟨n, n', hat, hstep, hbefore, hafter, himports⟩ :=
    t.declaredAt.own_entry structureStep_other t.structuredAt (by decide) rfl rfl hi
  obtain ⟨includes, enumMappings, hbuild, henums, rfl⟩ := a.structureStep_table _ _ hstep
  have hs : t.structured.mapping? a.header.path = some { includes, enumMappings } := by
    rw [hafter, mapping?_updateMapping, if_pos rfl, hbefore, t.declared_table, if_pos (mem_mappingPaths ha)]
    rfl
  have hm := t.linked_structure a.header.path
  rw [hs, ← t.final_mapping?] at hm
  obtain ⟨x, hx, hxs⟩ := map_eq_some_iff.1 hm
  cases hxs
  have hgrows : Grows (within [.mapping, .connection, .runtime]) n m :=
    t.grows hat (by decide) (fun _ => by decide) (by decide)
  exact ⟨n, x, i, fun q h => t.mapping?_isSome.1 (hgrows.has h), hx, hbuild, henums, hat, himports⟩

end

end Progress
end Document
end ModelGraph
