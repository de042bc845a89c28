/-
# The order of mappings in a document

Passes over mappings may take them in any order if no mapping stands on the way to another
one in the package tree, with one exception: a mapping is checked as soon as it is linked,
and the check follows the operations of what it includes only if these are linked already.
So most is checked where included mappings come first, and what is accepted then is accepted
in any order.

Key definitions: `Document.WrittenFirst`.
Key theorems: `Document.Trace.build_perm`, `Document.mapping_order_immaterial`,
`Document.mapping_order_decides`.
-/
import ModelGraph.Proofs.Mapping.Order
import ModelGraph.Proofs.Mapping.Validation

namespace ModelGraph

open Model Build Relation Pass MappingDecl

variable {d : Document} {o : Options} {m : Model} {ms : List MappingDecl}

namespace Document

/-- Each mapping comes after those that its includes can mean, by a path or by a name. -/
def WrittenFirst (d : Document) : Prop :=
  ∀ before a after, d.mappings = before ++ a :: after → ∀ q ∈ d.mappingPaths,
    d.IncludesInFull a.header.path q ∨ d.IncludesByName a.header.path q → q ∈ before.map (·.header.path)

namespace Trace

theorem mapped_unlinked (t : d.Trace o m) : t.mapped.Unlinked := by
  have hdeclared : t.declared.Unlinked := by
    intro q x hx s hs
    rw [t.declared_table] at hx
    obtain ⟨-, hx⟩ := Option.ite_none_right_eq_some.1 hx
    cases hx
    cases hs
  have hstructured : t.structured.Unlinked := ensures_each_keeps hdeclared
    (fun a _ _ hn => a.structureStep_unlinked hn) _ _ t.structureMappings
  exact ensures_each_keeps hstructured (fun a _ _ hn => a.setsStep_unlinked hn) _ _ t.mapSets

theorem mapped_includes (t : d.Trace o m) : t.mapped.Includes = m.Includes := by
  have hlink := (linkPass_ok.1 t.linkMappings).1
  have hlike := (link_local.each_keeps _ _ hlink).1
  rw [← Sees.includes hlike]
  funext x y
  rw [Includes, Includes, includesOf, includesOf, t.final_mapping?]

/-- **A build goes through with its mappings in another order.** -/
theorem build_perm (t : d.Trace o m) (hperm : d.mappings.Perm ms) (hapart : Apart d.mappings)
    (hfirst : IncludedFirst d.mappings m) :
    ∃ m', ({ d with mappings := ms }.build o).result = .ok m' ∧ m.Same m' := by
  have hnodup : (d.mappings.map (·.header.path)).Nodup := t.paths_nodup
  have hfirst' : IncludedFirst d.mappings t.mapped := by
    intro before a after hsplit q hq
    rw [t.mapped_includes] at hq
    exact hfirst before a after hsplit q hq
  obtain ⟨declared, hdeclared, same⟩ :=
    declare_simulates_perm hperm hnodup hapart (.refl t.start) _ _ t.declareMappings
  obtain ⟨structured, hstructured, same⟩ :=
    structureStep_local.simulates_perm hperm hnodup same _ _ t.structureMappings
  obtain ⟨mapped, hmapped, same⟩ :=
    setsStep_local.simulates_perm hperm hnodup same _ _ t.mapSets
  obtain ⟨linked, hlinked, same⟩ :=
    linkPass_perm hperm hnodup hfirst' t.mapped_unlinked same t.linkMappings
  obtain ⟨_, hdeclare, _, hbuild, hconnections⟩ := t.connectionRuns
  obtain ⟨connecting, hconnecting, same⟩ := simulates_each
    (fun c _ => (Made.register c.header (.connection none) {}).simulates) same _ _ hdeclare
  obtain ⟨connected, hconnected, same⟩ := simulates_each (fun c _ => c.buildStep_made.simulates) same _ _ hbuild
  rw [hconnections] at same
  obtain ⟨named, hnamed, same⟩ := simulates_each
    (fun r _ => (Made.register r.header (.runtime none) {}).simulates) same _ _ t.declareRuntimes
  obtain ⟨served, hserved, same⟩ := simulates_each (fun r _ => r.buildStep_made.simulates) same _ _ t.buildRuntimes
  obtain ⟨n, hn, hm⟩ := t.checked
  obtain ⟨checked, hchecked, same⟩ := checkMappings_simulates hperm hnodup same _ _ hn
  have hdistinct : n.Distinct :=
    (Like.of_noted ((checkMappings_made _).notes _ _ _ hn)).distinct.2 t.servedAt.tidy.distinct
  obtain ⟨m', hm', same, -⟩ := checkExtensions_simulates ⟨same, hdistinct⟩ _ _ hm
  refine ⟨m', ?_, same⟩
  rw [build, runPasses_result, passes, runs_append]
  obtain ⟨opened, hopened, filled, hfilled, hstart⟩ := t.storeRuns
  refine ⟨t.domain, t.domainRun, opened, hopened, filled, hfilled, ?_⟩
  rw [hstart]
  exact ⟨declared, hdeclared, structured, hstructured, mapped, hmapped, linked, hlinked, connecting, hconnecting,
    connected, hconnected, named, hnamed, served, hserved, checked, hchecked, m', hm', rfl⟩

theorem includedFirst (t : d.Trace o m) (h : d.WrittenFirst) : IncludedFirst d.mappings m := by
  intro before a after hsplit q hq
  obtain ⟨-, hmem, hwritten⟩ := t.edge_written hq
  exact h before a after hsplit q hmem hwritten

end Trace

/-- **The order of mappings does not decide whether a document is accepted**, as long as no
mapping stands on the way to another one in the package tree, and mappings come after those
that they include. If a document is accepted in such an order, then it is accepted in every
other one, with the same elements in the model; and of two such orders either both are
accepted or neither. -/
theorem mapping_order_immaterial (hperm : d.mappings.Perm ms) (hapart : MappingDecl.Apart d.mappings) :
    (∀ m, (d.build o).result = .ok m → MappingDecl.IncludedFirst d.mappings m →
      ∃ m', ({ d with mappings := ms }.build o).result = .ok m' ∧ ∀ p, m'.element? p = m.element? p) ∧
    (d.WrittenFirst → { d with mappings := ms }.WrittenFirst →
      ((∃ m, (d.build o).result = .ok m) ↔ ∃ m, ({ d with mappings := ms }.build o).result = .ok m)) := by
  refine ⟨fun m hm hfirst => ?_, fun hfirst hfirst' => ⟨?_, ?_⟩⟩
  · obtain ⟨t⟩ := exists_trace hm
    obtain ⟨m', hm', same⟩ := t.build_perm hperm hapart hfirst
    exact ⟨m', hm', fun p => by rw [element?, element?, same.toLike.declared? same.mapping?]⟩
  · rintro ⟨m, hm⟩
    obtain ⟨t⟩ := exists_trace hm
    obtain ⟨m', hm', -⟩ := t.build_perm hperm hapart (t.includedFirst hfirst)
    exact ⟨m', hm'⟩
  · rintro ⟨m, hm⟩
    obtain ⟨t⟩ := exists_trace hm
    have hapart' : MappingDecl.Apart ms := fun a ha b hb =>
      hapart a (hperm.mem_iff.2 ha) b (hperm.mem_iff.2 hb)
    obtain ⟨m', hm', -⟩ := t.build_perm hperm.symm hapart' (t.includedFirst hfirst')
    exact ⟨m', hm'⟩

theorem writtenFirst_of_paths (hnodup : d.mappingPaths.Nodup)
    (h : ∀ n : Fin d.mappings.length, ∀ i ∈ (d.mappings.get n).includes, Path.isQualified i.path = true ∧
      i.path ∈ (d.mappings.take n).map (·.header.path)) : d.WrittenFirst := by
  intro before a after hsplit q _ hq
  have hlength : before.length < d.mappings.length := by simp [hsplit]
  have hbefore : d.mappings.take before.length = before := by rw [hsplit, List.take_left]
  have hget : d.mappings.get ⟨before.length, hlength⟩ = a := by simp [hsplit]
  have ha : a ∈ d.mappings := hget ▸ List.get_mem _ _
  -- The mapping with the path is the one at this place.
  have hincludes : ∀ b ∈ d.mappings, b.header.path = a.header.path → ∀ i ∈ b.includes,
      Path.isQualified i.path = true ∧ i.path ∈ before.map (·.header.path) := by
    intro b hb hpath i hi
    rw [List.inj_on_of_nodup_map hnodup hb ha hpath] at hi
    have hi' := h ⟨before.length, hlength⟩ i (hget ▸ hi)
    rwa [hbefore] at hi'
  rcases hq with ⟨b, hb, hpath, i, hi, rfl⟩ | ⟨b, hb, hpath, i, hi, hname, -⟩
  · exact (hincludes b hb hpath i hi).2
  · rw [(hincludes b hb hpath i hi).1] at hname
    cases hname

/-- A mapping with a class mapping from instances and an operation on it, another mapping,
and a mapping that includes both and maps a property by way of the operation. What the
expression for the property gives is of the given type. -/
def sharedParts (type : String) : Document :=
  { classes :=
      [classOf "T" [], classOf "S" [("s", type)], classOf "P" [], classOf "Q" [("p", "m::P")]]
    mappings := [parts, other, whole] }
where
  classOf (name : String) (properties : List (String × String)) : ClassDecl :=
    { header := { package := "m", name }
      properties := properties.map fun (name, typeName) =>
        { name, typeName, bounds := { lower := 1, upper := some 1 } } }
  parts : MappingDecl :=
    { header := { package := "m", name := "Parts" }
      classMappings :=
        [.mk { tag := "pureInstance", className := "m::P", id := "i", srcClass := "m::S" } none [],
         .mk { tag := "operation", className := "m::P", id := "u", root := true,
               operation := "ROUTER_UNION", parameters := ["i"] } none []] }
  other : MappingDecl :=
    { header := { package := "m", name := "Other" }
      classMappings :=
        [.mk { tag := "pureInstance", className := "m::T", id := "t", srcClass := "m::T" } none []] }
  whole : MappingDecl :=
    { header := { package := "m", name := "Whole" }
      includes := [{ mapping := "m::Parts" }, { mapping := "m::Other" }]
      classMappings :=
        [.mk { tag := "pureInstance", className := "m::Q", id := "q", srcClass := "m::S",
               properties := [
                 { tag := "purePropertyMapping"
                   property := { className := "m::Q", property := "p" }
                   target := "u"
                   transform := some (.mk { tag := "lambda" } [] [.mk { tag := "property", property := "s" }
                     [.mk { tag := "var", name := "src" } [] [] [] []] [] [] []] [] []) }] } none []] }

theorem sharedParts_reordered : ∃ m, ((sharedParts "m::S").build {}).result = .ok m ∧
    MappingDecl.Apart (sharedParts "m::S").mappings ∧
    MappingDecl.IncludedFirst (sharedParts "m::S").mappings m ∧
    (∃ m', ({ sharedParts "m::S" with
        mappings := [sharedParts.whole, sharedParts.other, sharedParts.parts] }.build {}).result = .ok m' ∧
      ∀ p, m'.element? p = m.element? p) ∧
    (sharedParts "m::S").WrittenFirst ∧
    { sharedParts "m::S" with mappings := [sharedParts.other, sharedParts.parts, sharedParts.whole] }.WrittenFirst ∧
    ((∃ m, ((sharedParts "m::S").build {}).result = .ok m) ↔ ∃ m, ({ sharedParts "m::S" with
      mappings := [sharedParts.other, sharedParts.parts, sharedParts.whole] }.build {}).result = .ok m) := by
  obtain ⟨m, hok⟩ : ∃ m, ((sharedParts "m::S").build {}).result = .ok m := by decide +kernel
  have hapart : MappingDecl.Apart (sharedParts "m::S").mappings := by
    unfold MappingDecl.Apart
    decide +kernel
  have hwritten : (sharedParts "m::S").WrittenFirst :=
    writtenFirst_of_paths (by decide +kernel) (by decide +kernel)
  have hwritten' : { sharedParts "m::S" with
      mappings := [sharedParts.other, sharedParts.parts, sharedParts.whole] }.WrittenFirst :=
    writtenFirst_of_paths (by decide +kernel) (by decide +kernel)
  obtain ⟨t⟩ := exists_trace hok
  have hfirst := t.includedFirst hwritten
  have hreversed : (sharedParts "m::S").mappings.Perm
      [sharedParts.whole, sharedParts.other, sharedParts.parts] := (List.reverse_perm _).symm
  have hswapped : (sharedParts "m::S").mappings.Perm
      [sharedParts.other, sharedParts.parts, sharedParts.whole] := .swap _ _ _
  exact ⟨m, hok, hapart, hfirst, (mapping_order_immaterial hreversed hapart).1 m hok hfirst, hwritten, hwritten',
    (mapping_order_immaterial hswapped hapart).2 hwritten hwritten'⟩

/-- A mapping in a package, and a mapping with the path of the package. -/
def nestedMappings : Document :=
  { mappings := [{ header := { package := "m::a", name := "X" } }, { header := { package := "m", name := "a" } }] }

/-- **In general the order does decide.** An expression of another type passes as long as the
operation that it is held against is not linked, and no mapping can be declared in a package
that is a mapping already. -/
theorem mapping_order_decides :
    (∃ m, ({ sharedParts "m::T" with
        mappings := [sharedParts.whole, sharedParts.other, sharedParts.parts] }.build {}).result = .ok m) ∧
    (¬ ∃ m, ((sharedParts "m::T").build {}).result = .ok m) ∧
    (∃ m, (nestedMappings.build {}).result = .ok m) ∧
    ¬ ∃ m, ({ nestedMappings with mappings := nestedMappings.mappings.reverse }.build {}).result = .ok m := by
  refine ⟨?_, ?_, ?_, ?_⟩ <;> decide +kernel

end Document
end ModelGraph
