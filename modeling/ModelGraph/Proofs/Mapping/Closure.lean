/-
# All that a mapping includes

Once includes are resolved they lead to mappings, on cycles perhaps. The search for what a mapping
includes comes to an end all the same, and it finds each mapping once that includes lead to, in
the order of a search that has no bound. So a mapping sees each class mapping once that it or one
of these has, its own first, and finds an id that one of them has.

Key definitions: `Model.Linked`.
Key theorems: `Model.Linked.mem_seen`, `Model.Linked.mem_allSets`, `Model.include_closure_exact`.
-/
import ModelGraph.Proofs.Mapping.Includes

namespace ModelGraph

open Relation Search List

namespace Model

variable {m : Model} {path q id : String} {r : SetRef} {s : SetImplementation}

def Linked (m : Model) : Prop := ∀ x y, m.Includes x y → m.Has y .mapping

theorem Linked.closed (hm : m.Linked) (path : String) : Closed m.includesOf (path :: m.elements.map (·.path)) := by
  intro x _ y hy
  obtain ⟨e, he, -⟩ := hm x y hy
  exact mem_cons_of_mem _ (mem_map.2 ⟨e, mem_of_declared? he, path_of_declared? he⟩)

theorem linked_iff : m.Linked ↔ ∀ e ∈ m.elements, ∀ y ∈ m.includesOf e.path, (m.mapping? y).isSome = true := by
  simp only [Option.isSome_iff_exists, ← has_mapping]
  refine ⟨fun h e _ y => h e.path y, fun h x y hxy => ?_⟩
  unfold Includes includesOf at hxy
  split at hxy
  · rename_i z hz
    obtain ⟨e, he, -⟩ := mapping?_eq_some.1 hz
    refine h e (mem_of_declared? he) y ?_
    simpa [includesOf, path_of_declared? he, hz] using hxy
  · cases hxy

/-- What a mapping sees: itself, and what it includes. -/
theorem cons_includedMappings (m : Model) (path : String) :
    path :: m.includedMappings path = preorder m.includesOf (m.elements.length + 1) path :=
  cons_drop_preorder _ _ _

theorem Linked.visits (hm : m.Linked) (path : String) :
    Visits m.includesOf [] [path] (path :: m.includedMappings path) := by
  rw [cons_includedMappings]
  exact visits_preorder (hm.closed path) (.head _) (by simp)

/-- What a mapping includes does not depend on the bound of the search. -/
theorem Linked.includedMappings_eq {n : Model} (hm : m.Linked) (hn : n.Linked) (h : m.includesOf = n.includesOf)
    (path : String) : m.includedMappings path = n.includedMappings path :=
  (cons.inj ((hm.visits path).unique (h ▸ hn.visits path))).2

theorem Linked.mem_seen (hm : m.Linked) :
    q ∈ path :: m.includedMappings path ↔ ReflTransGen m.Includes path q := by
  rw [cons_includedMappings]
  exact mem_preorder (hm.closed path) (.head _) (by simp)

theorem nodup_seen (m : Model) (path : String) : (path :: m.includedMappings path).Nodup := by
  rw [cons_includedMappings]
  exact nodup_preorder _ _ _

theorem Linked.mem_includedMappings (hm : m.Linked) :
    q ∈ m.includedMappings path ↔ q ≠ path ∧ TransGen m.Includes path q := by
  have hnot : path ∉ m.includedMappings path := (nodup_cons.1 (m.nodup_seen path)).1
  constructor
  · intro hq
    have hne : q ≠ path := ne_of_mem_of_not_mem hq hnot
    refine ⟨hne, ?_⟩
    exact (reflTransGen_iff_eq_or_transGen.1 (hm.mem_seen.1 (.tail _ hq))).resolve_left hne
  · rintro ⟨hne, hq⟩
    exact (mem_cons.1 (hm.mem_seen.2 hq.to_reflTransGen)).resolve_left hne

/-! ### Class mappings -/

theorem mem_setsOf : (r, s) ∈ m.setsOf path ↔ r.mapping = path ∧ m.setAt? r = some s := by
  unfold setsOf setAt?
  constructor
  · intro h
    split at h
    · rename_i x hx
      obtain ⟨⟨y, i⟩, hy, heq⟩ := mem_map.1 h
      cases heq
      exact ⟨rfl, by simpa [hx] using mem_zipIdx_iff_getElem?.1 hy⟩
    · cases h
  · rintro ⟨rfl, h⟩
    obtain ⟨x, hx, hs⟩ := Option.bind_eq_some_iff.1 h
    rw [hx]
    exact mem_map.2 ⟨(s, r.index), mem_zipIdx_iff_getElem?.2 hs, rfl⟩
theorem Linked.mem_allSets (hm : m.Linked) :
    (r, s) ∈ m.allSets path ↔ ReflTransGen m.Includes path r.mapping ∧ m.setAt? r = some s := by
  rw [allSets, mem_flatMap]
  constructor
  · rintro ⟨q, hq, hmem⟩
    obtain ⟨rfl, hs⟩ := mem_setsOf.1 hmem
    exact ⟨hm.mem_seen.1 hq, hs⟩
  · rintro ⟨hr, hs⟩
    exact ⟨r.mapping, hm.mem_seen.2 hr, mem_setsOf.2 ⟨rfl, hs⟩⟩

theorem nodup_setsOf (m : Model) (path : String) : ((m.setsOf path).map (·.1)).Nodup := by
  unfold setsOf
  split
  · rename_i x _
    have hindex : ((x.sets.zipIdx.map fun y => ({ mapping := path, index := y.2 } : SetRef)).map
        (·.index)).Nodup := by
      simpa [Function.comp_def] using nodup_range'
    rw [List.map_map]
    exact hindex.of_map
  · exact nodup_nil

/-- No class mapping is listed twice. -/
theorem nodup_allSets (m : Model) (path : String) : ((m.allSets path).map (·.1)).Nodup := by
  rw [allSets, map_flatMap, nodup_flatMap]
  refine ⟨fun q _ => m.nodup_setsOf q, (m.nodup_seen path).imp fun {q q'} hne r hr hr' => ?_⟩
  obtain ⟨⟨r, s⟩, hs, rfl⟩ := mem_map.1 hr
  obtain ⟨⟨r', s'⟩, hs', rfl⟩ := mem_map.1 hr'
  exact hne ((mem_setsOf.1 hs).1.symm.trans (mem_setsOf.1 hs').1)

theorem allSets_eq (m : Model) (path : String) :
    ∃ others, m.allSets path = m.setsOf path ++ others ∧ ∀ x ∈ others, x.1.mapping ≠ path := by
  refine ⟨_, flatMap_cons, fun x hx hpath => ?_⟩
  obtain ⟨q, hq, hmem⟩ := mem_flatMap.1 hx
  rw [(mem_setsOf.1 hmem).1] at hpath
  exact (nodup_cons.1 (m.nodup_seen path)).1 (hpath ▸ hq)

theorem Linked.setById?_isSome (hm : m.Linked) : (m.setById? path id).isSome = true ↔
    ∃ r s, ReflTransGen m.Includes path r.mapping ∧ m.setAt? r = some s ∧ s.id = id := by
  simp only [setById?, find?_isSome, Prod.exists, hm.mem_allSets, decide_eq_true_eq, and_assoc]

/-- **What a mapping includes is all that includes lead to.** If includes lead to mappings, then the
mappings that a mapping includes are listed once each, and they are just those other than itself
that one or more includes lead to. They stand in the order in which a search finds them that has no
bound and goes depth first, whatever cycles there are. Hence each class mapping of the mapping and
of these is listed once, its own first, and an id is found if and only if one of them has it. -/
theorem include_closure_exact (hm : m.Linked) (path : String) :
    (m.includedMappings path).Nodup ∧
    (∀ q, q ∈ m.includedMappings path ↔ q ≠ path ∧ TransGen m.Includes path q) ∧
    Visits m.includesOf [] [path] (path :: m.includedMappings path) ∧
    ((m.allSets path).map (·.1)).Nodup ∧
    (∀ r s, (r, s) ∈ m.allSets path ↔ ReflTransGen m.Includes path r.mapping ∧ m.setAt? r = some s) ∧
    (∃ others, m.allSets path = m.setsOf path ++ others ∧ ∀ x ∈ others, x.1.mapping ≠ path) ∧
    (∀ id, (m.setById? path id).isSome = true ↔
      ∃ r s, ReflTransGen m.Includes path r.mapping ∧ m.setAt? r = some s ∧ s.id = id) ∧
    ∀ id x, m.setById? path id = some x → x ∈ m.allSets path ∧ x.2.id = id := by
  refine ⟨(nodup_cons.1 (m.nodup_seen path)).2, fun q => hm.mem_includedMappings, hm.visits path,
    m.nodup_allSets path, fun r s => hm.mem_allSets, m.allSets_eq path, fun id => hm.setById?_isSome, fun id x h => ?_⟩
  exact ⟨mem_of_find?_eq_some h, by simpa using find?_some h⟩

/-- Two mappings that include each other, of which one includes a third with a class mapping. -/
def includeCycle : Model :=
  { elements :=
      [including "M" ["m::N"] [], including "N" ["m::M", "m::K"] [],
       including "K" [] [.instances { id := "k", className := Library.any, parent := "m::K" } none none]] }
where
  including (name : String) (others : List String) (sets : List SetImplementation) : Element :=
    { name, path := "m::" ++ name
      content := .mapping { includes := others.map fun x => { included := x, owner := "m::" ++ name }, sets } }

/-- A class mapping behind mappings that include each other is found. -/
theorem includeCycle_seen : includeCycle.Linked ∧ TransGen includeCycle.Includes "m::M" "m::M" ∧
    (∀ q, q ∈ ["m::N", "m::K"] ↔ q ≠ "m::M" ∧ TransGen includeCycle.Includes "m::M" q) ∧
    ∃ r s, ReflTransGen includeCycle.Includes "m::M" r.mapping ∧ includeCycle.setAt? r = some s ∧ s.id = "k" := by
  have hm : includeCycle.Linked := linked_iff.2 (by decide)
  have hseen : includeCycle.includedMappings "m::M" = ["m::N", "m::K"] := by decide
  have hthere : "m::N" ∈ includeCycle.includesOf "m::M" := by decide
  have hback : "m::M" ∈ includeCycle.includesOf "m::N" := by decide
  obtain ⟨-, hmem, -, -, -, -, hid, -⟩ := include_closure_exact hm "m::M"
  exact ⟨hm, .tail (.single hthere) hback, hseen ▸ hmem, (hid "k").1 (by decide)⟩

end Model

namespace Document

theorem Trace.linked_final {d : Document} {o : Options} {m : Model} (t : d.Trace o m) : m.Linked :=
  fun _ _ h => t.mapping?_isSome.2 (t.edge_written h).2.1

end Document
end ModelGraph
