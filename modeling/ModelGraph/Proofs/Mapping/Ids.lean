/-
# Ids in all that a mapping sees

A mapping sees itself and what it includes, directly or through others, each once however many
includes lead to it. The check of its ids fails if two class mappings that it sees share an id, or
two enumeration mappings, and only then; what it warns about are the ids of its own property
mappings that no class mapping has which it sees. So an id finds the one class mapping or
enumeration mapping that has it.

Key definitions: `Model.Clash`.
Key theorems: `Model.Linked.repeatedId?_eq_none`, `Model.Linked.checkIds_eq_ok`,
`Document.mapping_ids_unique`.
-/
import ModelGraph.Proofs.Mapping.Operations

namespace ModelGraph

open Search

open List hiding get

open Model Build Relation

/-! ### Positions in lists of lists -/

theorem firstRepeated?_of_nodup {α : Type} [BEq α] [LawfulBEq α] : ∀ {l seen : List α},
    l.Nodup → (∀ a ∈ l, a ∉ seen) → firstRepeated? l seen = none
  | [], _, _, _ => rfl
  | a :: as, seen, hl, hseen => by
    obtain ⟨ha, has⟩ := nodup_cons.1 hl
    have hnew : ¬ seen.contains a = true := by simpa using hseen a (.head _)
    rw [firstRepeated?, if_neg hnew]
    refine firstRepeated?_of_nodup has fun b hb hmem => ?_
    rcases mem_cons.1 hmem with rfl | hmem
    · exact ha hb
    · exact hseen b (.tail _ hb) hmem

theorem nodup_flatMap_iff {α β : Type} {l : List α} {f : α → List β} (hl : l.Nodup) :
    (l.flatMap f).Nodup ↔ ∀ q ∈ l, ∀ q' ∈ l, ∀ (i i' : Nat) (b : β),
      (f q)[i]? = some b → (f q')[i']? = some b → q = q' ∧ i = i' := by
  rw [nodup_flatMap]
  constructor
  · rintro ⟨hnodup, hdisjoint⟩ q hq q' hq' i i' b hb hb'
    by_cases heq : q = q'
    · subst heq
      have hi : i < (f q).length := (List.getElem?_eq_some_iff.1 hb).1
      exact ⟨rfl, (getElem?_inj hi (hnodup q hq)).1 (hb.trans hb'.symm)⟩
    · have : Std.Symm (Function.onFun List.Disjoint f) := ⟨fun _ _ h => h.symm⟩
      exact absurd (mem_of_getElem? hb') (hdisjoint.forall hq hq' heq (mem_of_getElem? hb))
  · intro h
    refine ⟨fun q hq => nodup_iff_getElem?_ne_getElem?.2 fun i j hij hj heq => ?_,
      List.Pairwise.imp_of_mem (fun {q q'} hq hq' hne b hb hb' => ?_) hl⟩
    · have hb : (f q)[j]? = some (f q)[j] := getElem?_eq_getElem hj
      exact Nat.ne_of_lt hij (h q hq q hq i j _ (heq.trans hb) hb).2
    · obtain ⟨i, hi⟩ := mem_iff_getElem?.1 hb
      obtain ⟨i', hi'⟩ := mem_iff_getElem?.1 hb'
      exact hne (h q hq q' hq' i i' b hi hi').1

/-! ### The check -/

namespace Model

variable {m m' : Model} {path : String} {ids : String → List String}

/-- Two positions in the lists of all that a mapping sees hold the same id. -/
def Clash (m : Model) (ids : String → List String) (path : String) : Prop :=
  ∃ (q q' : String) (i i' : Nat) (id : String), (q, i) ≠ (q', i') ∧ ReflTransGen m.Includes path q ∧
    ReflTransGen m.Includes path q' ∧ (ids q)[i]? = some id ∧ (ids q')[i']? = some id

def Unknown (m : Model) (path id : String) : Prop :=
  id ≠ "" ∧ ∀ q, ReflTransGen m.Includes path q → id ∉ m.setIds q

def unknownId (path : String) (p : PropertyMapping) (id : String) : Finding :=
  { rule := unknownIdRule, severity := .warning, path, span := p.span
    message := "Error '" ++ id ++ "' can't be found in the mapping " ++ path }

theorem nodup_includeOrder (m : Model) (path : String) : (m.includeOrder path).Nodup := by
  have hperm := postorder_perm_preorder m.includesOf (m.elements.length + 1) path
  exact hperm.nodup_iff.2 (nodup_preorder _ _ _)

theorem Linked.mem_includeOrder (hm : m.Linked) {q : String} :
    q ∈ m.includeOrder path ↔ ReflTransGen m.Includes path q := by
  rw [includeOrder, (postorder_perm_preorder m.includesOf _ path).mem_iff, ← cons_includedMappings]
  exact hm.mem_seen

/-- **An id is found twice if and only if two positions share it.** -/
theorem Linked.repeatedId?_eq_none (hm : m.Linked) : m.repeatedId? ids path = none ↔ ¬ m.Clash ids path := by
  have hnodup : m.repeatedId? ids path = none ↔ ((m.includeOrder path).flatMap ids).Nodup :=
    ⟨fun h => (firstRepeated?_eq_none h).1, fun h => firstRepeated?_of_nodup h fun _ _ => not_mem_nil⟩
  rw [hnodup, nodup_flatMap_iff (m.nodup_includeOrder path)]
  constructor
  · rintro h ⟨q, q', i, i', id, hne, hq, hq', hid, hid'⟩
    obtain ⟨rfl, rfl⟩ := h q (hm.mem_includeOrder.2 hq) q' (hm.mem_includeOrder.2 hq') i i' id hid hid'
    exact hne rfl
  · intro h q hq q' hq' i i' id hid hid'
    by_contra hne
    refine h ⟨q, q', i, i', id, fun heq => hne (Prod.mk.inj heq), ?_, ?_, hid, hid'⟩
    · exact hm.mem_includeOrder.1 hq
    · exact hm.mem_includeOrder.1 hq'

theorem foldl_warnUnknownIds (path : String) (known : List String) : ∀ (ps : List PropertyMapping) (m : Model),
    ps.foldl (warnUnknownIds path known) m = { m with warnings := m.warnings ++ ps.flatMap fun p =>
      ([p.sourceId, p.targetId].filter fun id => id != "" && !known.contains id).map (unknownId path p) }
  | [], m => by simp
  | p :: ps, m => by
    have hone : ∀ (ids : List String) (m : Model), ids.foldl (fun m id => m.warn unknownIdRule p.span path
          ("Error '" ++ id ++ "' can't be found in the mapping " ++ path)) m =
        { m with warnings := m.warnings ++ ids.map (unknownId path p) } := by
      intro ids
      induction ids with
      | nil => exact fun m => by simp
      | cons id ids ih =>
        intro m
        rw [foldl_cons, ih, warn, append_assoc]
        rfl
    rw [foldl_cons, foldl_warnUnknownIds path known ps, warnUnknownIds, hone, flatMap_cons,
      append_assoc]

/-- **What the check of ids does.** It succeeds if no two class mappings and no two enumeration mappings
that the mapping sees share an id, and adds a warning for each id of its own property mappings that
is unknown. -/
theorem Linked.checkIds_eq_ok (hm : m.Linked) (path : String) (span : Span) :
    ∃ unknown : String → Bool, (∀ id, unknown id = true ↔ m.Unknown path id) ∧ ∀ m',
      checkIds path span m = .ok ((), m') ↔ ¬ m.Clash m.setIds path ∧ ¬ m.Clash m.enumMappingIds path ∧
        m' = { m with
          warnings := m.warnings ++ ((m.setsOf path).flatMap fun s => s.2.base.properties).flatMap fun p =>
            ([p.sourceId, p.targetId].filter unknown).map (unknownId path p) } := by
  refine ⟨fun id => id != "" && !((m.includeOrder path).flatMap m.setIds).contains id, fun id => ?_, fun m' => ?_⟩
  · simp [Unknown, hm.mem_includeOrder]
  · rw [← hm.repeatedId?_eq_none, ← hm.repeatedId?_eq_none, ← foldl_warnUnknownIds]
    have hget {f : Model → Build Unit} : (get >>= f) m = f m m := rfl
    unfold checkIds
    rw [hget]
    rcases m.repeatedId? m.setIds path with _ | id
    · rcases m.repeatedId? m.enumMappingIds path with _ | id
      · simp only [true_and]
        exact ⟨fun h => by cases h; rfl, fun h => by rw [h]; rfl⟩
      · exact iff_of_false nofun (by simp)
    · exact iff_of_false nofun (by simp)

end Model

/-! ### Looking up an id -/

namespace Document

variable {d : Document} {o : Options} {m : Model} {path : String}

theorem Trace.setById?_eq_some (t : d.Trace o m) (hpath : path ∈ d.mappingPaths) (id : String) (r : SetRef)
    (s : SetImplementation) : m.setById? path id = some (r, s) ↔
      ReflTransGen m.Includes path r.mapping ∧ m.setAt? r = some s ∧ s.id = id := by
  constructor
  · intro h
    have hmem := t.linked_final.mem_allSets.1 (mem_of_find?_eq_some h)
    exact ⟨hmem.1, hmem.2, by simpa using find?_some h⟩
  · rintro ⟨hreach, hs, rfl⟩
    exact @find?_of_nodup _ _ _ (fun x : SetRef × SetImplementation => x.2.id) _ (t.ids_nodup hpath) _
      (t.linked_final.mem_allSets.2 ⟨hreach, hs⟩)

theorem allEnumMappings_eq (m : Model) (path : String) : m.allEnumMappings path =
    (path :: m.includedMappings path).flatMap fun q => ((m.mapping? q).map (·.enumMappings)).getD [] := by
  refine flatMap_congr fun q _ => ?_
  cases m.mapping? q <;> rfl

theorem Trace.find?_enumMapping (t : d.Trace o m) (hpath : path ∈ d.mappingPaths) (id : String)
    (e : EnumerationMapping) : ((m.allEnumMappings path).find? fun e => e.name = id) = some e ↔
      ∃ q x, ReflTransGen m.Includes path q ∧ m.mapping? q = some x ∧ e ∈ x.enumMappings ∧ e.name = id := by
  have hmem : e ∈ m.allEnumMappings path ↔
      ∃ q x, ReflTransGen m.Includes path q ∧ m.mapping? q = some x ∧ e ∈ x.enumMappings := by
    rw [allEnumMappings_eq, mem_flatMap]
    refine exists_congr fun q => ?_
    rw [t.linked_final.mem_seen]
    cases m.mapping? q <;> simp
  have hnodup : ((m.allEnumMappings path).map (·.name)).Nodup := by
    have hids := (firstRepeated?_eq_none (t.repeatedId?_eq_none hpath).2).1
    rw [allEnumMappings_eq, map_flatMap]
    have hsame : (fun q => (((m.mapping? q).map (·.enumMappings)).getD []).map (·.name)) = m.enumMappingIds := by
      funext q
      unfold enumMappingIds
      cases m.mapping? q <;> rfl
    have hperm := postorder_perm_preorder m.includesOf (m.elements.length + 1) path
    rw [hsame, cons_includedMappings]
    exact (hperm.flatMap_right m.enumMappingIds).nodup_iff.1 hids
  constructor
  · intro h
    obtain ⟨q, x, hq, hx, he⟩ := hmem.1 (mem_of_find?_eq_some h)
    exact ⟨q, x, hq, hx, he, by simpa using find?_some h⟩
  · rintro ⟨q, x, hq, hx, he, rfl⟩
    exact @find?_of_nodup _ _ _ (fun e : EnumerationMapping => e.name) _ hnodup _ (hmem.2 ⟨q, x, hq, hx, he⟩)

/-- **Ids are unique in all that a mapping sees.** The check of a mapping fails if and only if two class
mappings or two enumeration mappings that it sees share an id; else it adds a warning for each id of
its own property mappings that no class mapping has which it sees, and nothing else. In a model that
was built no two share an id, and an id finds the class mapping and the enumeration mapping that
have it. -/
theorem mapping_ids_unique :
    (∀ (m : Model) (path : String) (span : Span), m.Linked →
      ((∃ f, checkIds path span m = .error f) ↔ m.Clash m.setIds path ∨ m.Clash m.enumMappingIds path) ∧
      ∃ unknown : String → Bool, (∀ id, unknown id = true ↔ m.Unknown path id) ∧
        ∀ m', checkIds path span m = .ok ((), m') → m' = { m with
          warnings := m.warnings ++ ((m.setsOf path).flatMap fun s => s.2.base.properties).flatMap fun p =>
            ([p.sourceId, p.targetId].filter unknown).map (unknownId path p) }) ∧
    ∀ (d : Document) (o : Options) (m : Model), (d.build o).result = .ok m → m.Linked ∧
      ∀ path, m.Has path .mapping → ¬ m.Clash m.setIds path ∧ ¬ m.Clash m.enumMappingIds path ∧
        (∀ id r s, m.setById? path id = some (r, s) ↔
          ReflTransGen m.Includes path r.mapping ∧ m.setAt? r = some s ∧ s.id = id) ∧
        ∀ id e, ((m.allEnumMappings path).find? fun e => e.name = id) = some e ↔
          ∃ q x, ReflTransGen m.Includes path q ∧ m.mapping? q = some x ∧ e ∈ x.enumMappings ∧ e.name = id := by
  refine ⟨fun m path span hm => ?_, fun d o m h => ?_⟩
  · obtain ⟨unknown, hunknown, hok⟩ := hm.checkIds_eq_ok path span
    refine ⟨?_, unknown, hunknown, fun m' h => ((hok m').1 h).2.2⟩
    rw [← not_iff_not, not_or]
    constructor
    · intro h
      rcases hrun : checkIds path span m with f | ⟨⟨⟩, m'⟩
      · exact absurd ⟨f, hrun⟩ h
      · exact ⟨((hok m').1 hrun).1, ((hok m').1 hrun).2.1⟩
    · rintro ⟨hsets, henums⟩ ⟨f, hf⟩
      have hrun := (hok _).2 ⟨hsets, henums, rfl⟩
      rw [hf] at hrun
      cases hrun
  · obtain ⟨t⟩ := exists_trace h
    refine ⟨t.linked_final, fun path hpath => ?_⟩
    have hmem := t.mapping?_isSome.1 hpath
    have hnone := t.repeatedId?_eq_none hmem
    rw [t.linked_final.repeatedId?_eq_none, t.linked_final.repeatedId?_eq_none] at hnone
    exact ⟨hnone.1, hnone.2, t.setById?_eq_some hmem, t.find?_enumMapping hmem⟩

/-- A mapping with two includes that both lead to a third. -/
def includeDiamond : Document :=
  { classes := [{ header := { package := "m", name := "A" } }]
    mappings :=
      [including "M" ["N", "O"], including "N" ["K"], including "O" ["K"],
       { header := { package := "m", name := "K" }
         classMappings := [.mk { tag := "pureInstance", className := "m::A", id := "k", root := true } none []] }] }
where
  including (name : String) (others : List String) : MappingDecl :=
    { header := { package := "m", name }, includes := others.map fun x => { package := "m", name := x } }
  shared : SetRef := { mapping := "m::K", index := 0 }

/-- What two includes lead to is found once. -/
theorem includeDiamond_found : ∃ m s, (includeDiamond.build {}).result = .ok m ∧
    m.setById? "m::M" "k" = some (includeDiamond.shared, s) ∧
    ∀ r s', ReflTransGen m.Includes "m::M" r.mapping → m.setAt? r = some s' → s'.id = "k" →
      r = includeDiamond.shared := by
  obtain ⟨m, hok, hhas, ⟨r, s⟩, hs, hr⟩ : ∃ m, (includeDiamond.build {}).result = .ok m ∧
      (m.mapping? "m::M").isSome ∧ ∃ x, m.setById? "m::M" "k" = some x ∧ x.1 = includeDiamond.shared := by
    decide +kernel
  obtain rfl : r = includeDiamond.shared := hr
  have hpath : m.Has "m::M" .mapping := has_mapping.2 (Option.isSome_iff_exists.1 hhas)
  obtain ⟨-, -, hfound, -⟩ := (mapping_ids_unique.2 includeDiamond {} m hok).2 "m::M" hpath
  refine ⟨m, s, hok, hs, fun r s' hreach hs' hid => ?_⟩
  have hone := (hfound "k" r s').2 ⟨hreach, hs', hid⟩
  rw [hs] at hone
  exact (congrArg Prod.fst (Option.some.inj hone)).symm

end Document
end ModelGraph
