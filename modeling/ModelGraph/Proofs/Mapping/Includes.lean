/-
# Cycles among includes

Includes are resolved when all mappings are declared; a name without a package is
looked for in the imported packages. The check for cycles goes over the includes as they
are written. So it sees an include that gives the path of the mapping it leads to, and
passes over one that leaves out the package: no mapping includes itself through includes
that are written in full, and a cycle has to use a short name.

Key definitions: `Model.Includes`, `Document.IncludesInFull`.
Key theorems: `Document.Trace.edge_written`, `Document.not_cyclic_in_full`,
`Document.include_cycle_has_short_name`.
-/
import Mathlib.Data.List.Perm.Subperm
import ModelGraph.Proofs.Mapping.Table
import ModelGraph.Proofs.Search.Cycle

namespace ModelGraph

open Model Build Relation List Result Search

variable {m : Model} {d : Document} {o : Options}

theorem find?_of_nodup {α β : Type} [DecidableEq β] {key : α → β} {l : List α} (hl : (l.map key).Nodup) {a : α}
    (ha : a ∈ l) : l.find? (fun b => key b = key a) = some a := by
  have hsome : (l.find? fun b => key b = key a).isSome := find?_isSome.2 ⟨a, ha, decide_eq_true rfl⟩
  obtain ⟨b, hb⟩ := Option.isSome_iff_exists.1 hsome
  have hkey : key b = key a := by simpa using find?_some hb
  rw [hb, inj_on_of_nodup_map hl (mem_of_find?_eq_some hb) ha hkey]

def Model.Includes (m : Model) (x y : String) : Prop := y ∈ m.includesOf x

namespace Document

/-- The declaration of a mapping includes another by its path. -/
def IncludesInFull (d : Document) (x y : String) : Prop :=
  ∃ a ∈ d.mappings, a.header.path = x ∧ ∃ i ∈ a.includes, i.path = y

/-- The declaration of a mapping includes another by a name that lacks the package. -/
def IncludesByName (d : Document) (x y : String) : Prop :=
  ∃ a ∈ d.mappings, a.header.path = x ∧ ∃ i ∈ a.includes,
    Path.isQualified i.path = false ∧ ∃ package, y = package ++ Path.separator ++ i.path

end Document

/-! ### Resolved includes -/

theorem Context.resolve_mapping {n : Model} {owner path : String} {span : Span} {e : Element}
    (h : (Context.of n owner).resolve .mapping path span = .ok e) : n.Has e.path .mapping ∧
      (e.path = path ∨
        Path.isQualified path = false ∧ ∃ package, e.path = package ++ Path.separator ++ path) := by
  have found {q : String} (h : n.lookup .mapping q span = .ok e) : n.Has e.path .mapping ∧ e.path = q := by
    obtain ⟨hd, hc⟩ := find?_declared (by simp) (lookup_ok h)
    have hp := path_of_declared? hd
    exact ⟨⟨e, hp ▸ hd, hc⟩, hp⟩
  rcases search_ok h with h | ⟨hq, package, -, h⟩
  · exact ⟨(found h).1, .inl (found h).2⟩
  · exact ⟨(found h).1, .inr ⟨hq, package, (found h).2⟩⟩

theorem IncludeDecl.build_ok {i : IncludeDecl} {c : Context} {before : List MappingInclude}
    {r : MappingInclude} (h : i.build c before = .ok r) :
    ∃ e, c.resolve .mapping i.path i.span = .ok e ∧ r.included = e.path := by
  obtain ⟨e, he, h⟩ := bind_eq_ok.1 h
  refine ⟨e, he, ?_⟩
  simp only at h
  split at h
  · cases h
  split at h
  · cases h
    rfl
  · obtain ⟨source, -, h⟩ := bind_eq_ok.1 h
    obtain ⟨target, -, h⟩ := bind_eq_ok.1 h
    cases h
    rfl

theorem MappingDecl.mem_buildIncludes {c : Context} : ∀ (is : List IncludeDecl) (before : List MappingInclude)
    {built : List MappingInclude}, buildIncludes c is before = .ok built → ∀ r ∈ built,
      r ∈ before ∨ ∃ i ∈ is, ∃ e, c.resolve .mapping i.path i.span = .ok e ∧ r.included = e.path
  | [], before, built, h, r, hr => by
    cases h
    exact .inl hr
  | i :: is, before, built, h, r, hr => by
    obtain ⟨x, hx, h⟩ := bind_eq_ok.1 h
    rcases mem_buildIncludes is _ h r hr with hmem | ⟨j, hj, hr⟩
    · rcases mem_append.1 hmem with hmem | hmem
      · exact .inl hmem
      · rw [mem_singleton.1 hmem]
        exact .inr ⟨i, mem_cons_self, IncludeDecl.build_ok hx⟩
    · exact .inr ⟨j, mem_cons_of_mem _ hj, hr⟩

namespace Document

/-- An include of the model is one of the document, between mappings of the document,
written in full or by name. -/
theorem Trace.edge_written (t : d.Trace o m) {x y : String} (h : m.Includes x y) :
    x ∈ d.mappingPaths ∧ y ∈ d.mappingPaths ∧ (d.IncludesInFull x y ∨ d.IncludesByName x y) := by
  unfold Includes includesOf at h
  split at h
  swap
  · cases h
  rename_i z hz
  have hx : x ∈ d.mappingPaths := t.mapping?_isSome.1 (has_mapping.2 ⟨z, hz⟩)
  obtain ⟨a, ha, rfl⟩ := mem_map.1 hx
  obtain ⟨n, z', -, hknown, hz', hbuild, -⟩ := t.structured_at ha
  cases hz.symm.trans hz'
  obtain ⟨r, hr, rfl⟩ := mem_map.1 h
  rcases MappingDecl.mem_buildIncludes _ _ hbuild r hr with hr | ⟨i, hi, e, he, heq⟩
  · cases hr
  obtain ⟨hhas, hpath⟩ := Context.resolve_mapping he
  rw [heq]
  exact ⟨hx, hknown _ hhas, hpath.imp (fun h => ⟨a, ha, rfl, i, hi, h.symm⟩) fun h =>
    ⟨a, ha, rfl, i, hi, h⟩⟩

/-! ### Cycles -/

theorem Trace.mem_writtenIncludes (t : d.Trace o m) {x y : String} (h : m.Includes x y)
    (hf : d.IncludesInFull x y) : y ∈ writtenIncludes d.mappings x := by
  obtain ⟨a, ha, rfl, i, hi, rfl⟩ := hf
  have hy := (t.edge_written h).2.1
  unfold writtenIncludes
  simp only [find?_of_nodup t.paths_nodup ha, mem_filter, contains_eq_mem, decide_eq_true_eq]
  exact ⟨mem_map_of_mem hi, hy⟩

theorem closed_writtenIncludes (mappings : List MappingDecl) :
    Closed (writtenIncludes mappings) (mappings.map (·.header.path)) := by
  intro x _ y hy
  unfold writtenIncludes at hy
  split at hy
  · simpa using (mem_filter.1 hy).2
  · cases hy

theorem firstCycle?_of_check (h : checkIncludeCycles d.mappings = .ok ()) :
    firstCycle? (writtenIncludes d.mappings) (d.mappings.length + 1) d.mappingPaths = none := by
  rcases hc : firstCycle? (writtenIncludes d.mappings) (d.mappings.length + 1) d.mappingPaths
    with _ | walk
  · rfl
  obtain ⟨start, rest, rfl, hs⟩ := firstCycle?_start hc
  obtain ⟨a, ha, rfl⟩ := mem_map.1 hs
  have hfind : (d.mappings.find? fun b => b.header.path = a.header.path).isSome :=
    find?_isSome.2 ⟨a, ha, decide_eq_true rfl⟩
  obtain ⟨b, hb⟩ := Option.isSome_iff_exists.1 hfind
  unfold checkIncludeCycles at h
  simp only at h
  rw [mappingPaths] at hc
  rw [hc] at h
  simp only [hb] at h
  cases h

theorem Trace.checkIncludeCycles_ok (t : d.Trace o m) : checkIncludeCycles d.mappings = .ok () := by
  obtain ⟨n, hn, -⟩ := t.checked
  have h : (checkMappings d.mappings).Ensures t.served fun _ _ => checkIncludeCycles d.mappings = .ok () := by
    unfold checkMappings
    rw [ensures_bind, ensures_liftM]
    exact fun _ h _ _ _ => h
  exact h _ _ hn

/-- **No mapping includes itself through includes that are written in full.** -/
theorem Trace.not_cyclic_in_full (t : d.Trace o m) (x : String) :
    ¬ TransGen (fun a b => m.Includes a b ∧ d.IncludesInFull a b) x x := by
  intro h
  have hx : x ∈ d.mappingPaths := by
    obtain ⟨b, ⟨hb, -⟩, -⟩ := TransGen.head'_iff.1 h
    exact (t.edge_written hb).1
  have hcycle : TransGen (Edge (writtenIncludes d.mappings)) x x :=
    TransGen.mono (fun a b hab => t.mem_writtenIncludes hab.1 hab.2) _ _ h
  have hlen : d.mappingPaths.length < d.mappings.length + 1 := by simp [mappingPaths]
  have hnone := firstCycle?_of_check t.checkIncludeCycles_ok
  rcases firstCycle?_cases (closed_writtenIncludes d.mappings) hlen with
    ⟨hacyclic, -⟩ | ⟨_, _, _, _, -, -, hwalk, -⟩
  · exact hacyclic x hx hcycle
  · cases hnone.symm.trans hwalk

theorem transGen_of_cycle {α : Type} {R S : α → α → Prop} {x y : α} (h : TransGen R x y)
    (hyx : ReflTransGen R y x)
    (hS : ∀ a b, ReflTransGen R x a → R a b → ReflTransGen R b x → S a b) :
    TransGen (fun a b => R a b ∧ S a b) x y := by
  induction h with
  | single hxy => exact .single ⟨hxy, hS _ _ .refl hxy hyx⟩
  | tail hxb hbc ih => exact (ih (.head hbc hyx)).tail ⟨hbc, hS _ _ hxb.to_reflTransGen hbc hyx⟩

/-- **A cycle among the includes of an accepted document uses a short name.** Each include
of the model is one of its declaration, which gives the path of the included mapping or
its name without the package; and on every cycle there is an include of the second kind
that the declaration does not make in full as well. -/
theorem include_cycle_has_short_name (h : (d.build o).result = .ok m) :
    (∀ x y, m.Includes x y → d.IncludesInFull x y ∨ d.IncludesByName x y) ∧
      ∀ x, TransGen m.Includes x x → ∃ a b, ReflTransGen m.Includes x a ∧ m.Includes a b ∧
        ReflTransGen m.Includes b x ∧ d.IncludesByName a b ∧ ¬ d.IncludesInFull a b := by
  obtain ⟨t⟩ := exists_trace h
  refine ⟨fun x y hxy => (t.edge_written hxy).2.2, fun x hx => ?_⟩
  by_contra hno
  refine t.not_cyclic_in_full x (transGen_of_cycle hx .refl fun a b hxa hab hbx => ?_)
  by_contra hfull
  exact hno ⟨a, b, hxa, hab, hbx, (t.edge_written hab).2.2.resolve_left hfull, hfull⟩

/-- Three mappings, each of which includes the next in full. -/
def includeChain : Document :=
  { mappings :=
      [{ header := { package := "m", name := "A" }, includes := [{ mapping := "m::B" }] },
       { header := { package := "m", name := "B" }, includes := [{ package := "m", name := "C" }] },
       { header := { package := "m", name := "C" } }] }

theorem includeChain_accepted : ∃ m, (includeChain.build {}).result = .ok m ∧
    m.Includes "m::A" "m::B" ∧ m.Includes "m::B" "m::C" ∧
    (∀ x y, m.Includes x y → includeChain.IncludesInFull x y ∨ includeChain.IncludesByName x y) ∧
      ∀ x, TransGen m.Includes x x → ∃ a b, ReflTransGen m.Includes x a ∧ m.Includes a b ∧
        ReflTransGen m.Includes b x ∧ includeChain.IncludesByName a b ∧
          ¬ includeChain.IncludesInFull a b := by
  obtain ⟨m, hok, hi⟩ : ∃ m, (includeChain.build {}).result = .ok m ∧
      m.includesOf "m::A" = ["m::B"] ∧ m.includesOf "m::B" = ["m::C"] := by decide +kernel
  refine ⟨m, hok, ?_, ?_, include_cycle_has_short_name hok⟩
  · rw [Includes, hi.1]
    exact .head _
  · rw [Includes, hi.2]
    exact .head _

end Document
end ModelGraph
