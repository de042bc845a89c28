/-
# What is read of mappings

What a mapping includes and how it maps enumerations is read off its declaration, and names
of mappings; class mappings are built with the enumeration mappings that the mapping sees;
links, association mappings and tests need the ids, classes and roots of the class mappings
that it sees; and checks, connections and runtimes may look at all of a mapping. So each of
these comes to the same in models that are alike and have so much in common.

Key definitions: `Model.Sees`, `Mapping.frame`.
Key theorems: `Model.Sees.allEnumMappings`, `Model.Sees.linkSet`, `Model.Sees.resolve`.
-/
import ModelGraph.Proofs.Build.Made

namespace ModelGraph

open Model Build List Mapping

variable {γ δ : Type} {S : Model → Model → Prop} {c c' : Context} {m m' : Model}

/-! ### Parts of mappings -/

/-- Related models have a part of each mapping in common. -/
class Model.Sees (S : Model → Model → Prop) (f : Mapping → δ) : Prop where
  map : ∀ {m m'}, S m m' → ∀ p, (m'.mapping? p).map f = (m.mapping? p).map f

instance (o : Options) (part : Mapping → δ) : Sees (Under o) part where
  map := by
    rintro m _ ⟨-, rfl⟩ p
    rfl

instance (part : Mapping → δ) : Sees (LikeIn fun _ => part) part := ⟨LikeIn.mappings⟩

instance (path : String) (part : Mapping → δ) : Sees (LikeIn (own path part)) part where
  map h p := by simpa [Function.comp_def, own] using congrArg (Option.map Prod.fst) (h.mappings p)

def Mapping.frame (x : Mapping) : List MappingInclude × List EnumerationMapping := (x.includes, x.enumMappings)

/-- The type that instances are built from, behind aggregations. -/
def SetImplementation.origin? (s : SetImplementation) : Option TypeRef :=
  match s.core with
  | .instances _ source _ => source
  | _ => none

/-- What stays of a class mapping when it is linked: what it is called, what it is of, and
what it builds from. -/
def SetImplementation.gist (s : SetImplementation) : String × TypeRef × Bool × Option TypeRef :=
  (s.id, s.base.className, s.base.root, s.origin?)

def Mapping.gist (x : Mapping) : (List MappingInclude × List EnumerationMapping) ×
    List (String × TypeRef × Bool × Option TypeRef) :=
  (x.frame, x.sets.map SetImplementation.gist)

theorem Model.Sees.of_eq {f : Mapping → δ} {g : Mapping → γ} [Sees S g]
    (h : ∀ x y, g x = g y → f x = f y) : Sees S f where
  map hm p := by
    rcases map_eq_cases (Sees.map (f := g) hm p) with ⟨hn, hn'⟩ | ⟨x, x', hn, hn', hx⟩ <;> rw [hn, hn']
    exact congrArg some (h _ _ hx)

instance [Sees S Mapping.gist] : Sees S Mapping.frame := .of_eq (g := Mapping.gist) fun _ _ => congrArg Prod.fst

instance [Sees S (id : Mapping → Mapping)] (part : Mapping → δ) : Sees S part :=
  .of_eq (g := id) fun _ _ => congrArg part

/-! ### Includes and enumeration mappings -/

theorem IncludeDecl.build_like (h : c.Like c') (d : IncludeDecl) (done : List MappingInclude) :
    d.build c' done = d.build c done := by
  have hpath := h.resolve_mapping d.path d.span
  have hstore : c'.resolve .store = c.resolve .store := h.resolve (by decide)
  unfold build
  rw [hstore, h.element]
  rcases hc : c.resolve .mapping d.path d.span with f | e <;>
    rcases hc' : c'.resolve .mapping d.path d.span with f' | e' <;> rw [hc, hc'] at hpath
  · cases hpath
    rfl
  · cases hpath
  · cases hpath
  · replace hpath : e'.path = e.path := Except.ok.inj hpath
    simp only [bind, Except.bind, hpath]

theorem MappingDecl.buildIncludes_like (h : c.Like c') : ∀ (ds : List IncludeDecl) (done : List MappingInclude),
    buildIncludes c' ds done = buildIncludes c ds done
  | [], _ => rfl
  | d :: ds, done => by
    rw [buildIncludes, d.build_like h]
    exact bind_congr fun i => buildIncludes_like h ds _

namespace SourceValue

theorem readEnum_like (h : c.Like c') : readEnum c' = readEnum c := by
  funext span path name
  rw [readEnum, readEnum, h.resolveEnumValue]

theorem readStructured_like (h : c.Like c') : readStructured c' = readStructured c := by
  funext span s
  rw [readStructured, readStructured, readEnum_like h]

theorem readFlagged_like (h : c.Like c') (span : Span) : ∀ depth, readFlagged c' span depth = readFlagged c span depth
  | 0 => rfl
  | depth + 1 => by
    funext s
    rw [readFlagged, readFlagged, readEnum_like h, readFlagged_like h span depth]

theorem readAs_like (h : c.Like c') : readAs c' = readAs c := by
  funext span type j
  rw [readAs, readAs, readEnum_like h]

theorem readAll_like (h : c.Like c') : readAll c' = readAll c := by
  unfold readAll
  rw [readAs_like h, readStructured_like h]
  simp only [readFlagged_like h]

end SourceValue

theorem EnumerationMappingDecl.build_like (h : c.Like c') (d : EnumerationMappingDecl) :
    d.build c' = d.build c := by
  unfold build
  rw [h.resolve (by decide), h.element, SourceValue.readAll_like h]

namespace Model.Sees

theorem includesOf [Sees S frame] (h : S m m') : m'.includesOf = m.includesOf := by
  funext p
  unfold Model.includesOf
  rcases map_eq_cases (map (f := frame) h p) with ⟨hm, hm'⟩ | ⟨x, x', hm, hm', hx⟩ <;> rw [hm, hm']
  simp only [show x'.includes = x.includes from congrArg Prod.fst hx]

variable [Sight S]

theorem includedMappings [Sees S frame] (h : S m m') : m'.includedMappings = m.includedMappings := by
  funext p
  rw [Model.includedMappings, Model.includedMappings, includesOf h, (Sight.like h).length]

theorem allEnumMappings [Sees S frame] (h : S m m') : m'.allEnumMappings = m.allEnumMappings := by
  funext p
  unfold Model.allEnumMappings
  rw [includedMappings h]
  congr 1
  funext q
  rcases map_eq_cases (map (f := frame) h q) with ⟨hm, hm'⟩ | ⟨x, x', hm, hm', hx⟩ <;> rw [hm, hm']
  exact congrArg Prod.snd hx

end Model.Sees

/-! ### Class mappings -/

theorem ClassMappingAttrs.propertyOf_like (h : c.Like c') (t : TypeRef) (d : PropertyMappingDecl) :
    propertyOf c' t d = propertyOf c t d := by
  unfold propertyOf mappedProperty
  rw [h.model.property, h.resolveGeneric, h.element]

namespace Relational

theorem resolveTable_like (h : c.Like c') : resolveTable c' = resolveTable c := by
  funext p outer
  have hstore : c'.resolve .store = c.resolve .store := h.resolve (by decide)
  rw [resolveTable, resolveTable, hstore, h.model.table?]

theorem buildProperty_like (h : c.Like c') : buildProperty c' = buildProperty c := by
  unfold buildProperty
  rw [h.resolveClass, h.model.property, resolveTable_like h]

theorem buildSet_like (h : c.Like c') : buildSet c' = buildSet c := by
  unfold buildSet
  rw [resolveTable_like h, buildProperty_like h]

end Relational

theorem InputDataDecl.build_like (h : c.Like c') (d : InputDataDecl) : d.build c' = d.build c := by
  unfold build
  rw [h.resolveClass]

/-! ### Links -/

namespace Model.Sees

section Gist

variable [Sight S] [Sees S Mapping.gist] (h : S m m') (path : String)
include h

theorem allSets : (m'.allSets path).map (fun s => (s.1, s.2.gist)) = (m.allSets path).map fun s => (s.1, s.2.gist) := by
  have hsets : ∀ q, (m'.setsOf q).map (fun s => (s.1, s.2.gist)) =
      (m.setsOf q).map fun s => (s.1, s.2.gist) := by
    intro q
    have hnumbered : ∀ (n : Model) (y : Mapping), n.mapping? q = some y →
        (n.setsOf q).map (fun s => (s.1, s.2.gist)) =
          (y.sets.map SetImplementation.gist).zipIdx.map fun g => ({ mapping := q, index := g.2 }, g.1) := by
      intro n y hy
      rw [setsOf, hy, zipIdx_map, map_map, map_map]
      rfl
    rcases map_eq_cases (map (f := gist) h q) with ⟨hm, hm'⟩ | ⟨x, x', hm, hm', hx⟩
    · rw [setsOf, setsOf, hm, hm']
    · have hsame : x'.sets.map SetImplementation.gist = x.sets.map SetImplementation.gist :=
        congrArg Prod.snd hx
      rw [hnumbered m' x' hm', hnumbered m x hm, hsame]
  unfold Model.allSets
  rw [includedMappings h, map_flatMap, map_flatMap]
  simp only [hsets]

theorem setById? (id : String) :
    (m'.setById? path id).map (fun s => (s.1, s.2.gist)) = (m.setById? path id).map fun s => (s.1, s.2.gist) := by
  have hfind : ∀ n : Model, (n.setById? path id).map (fun s => (s.1, s.2.gist)) =
      ((n.allSets path).map fun s => (s.1, s.2.gist)).find? fun g => g.2.1 = id := by
    intro n
    rw [List.find?_map]
    rfl
  rw [hfind, hfind, allSets h path]

theorem setsOfClass (t : TypeRef) :
    (m'.setsOfClass path t).map (fun s => (s.1, s.2.gist)) = (m.setsOfClass path t).map fun s => (s.1, s.2.gist) := by
  have hfilter : ∀ n : Model, (n.setsOfClass path t).map (fun s => (s.1, s.2.gist)) =
      ((n.allSets path).map fun s => (s.1, s.2.gist)).filter fun g => g.2.2.1.path = t.path := by
    intro n
    rw [filter_map]
    rfl
  rw [hfilter, hfilter, allSets h path]

theorem defaultTarget? (t : TypeRef) :
    (m'.defaultTarget? path t).map (·.id) = (m.defaultTarget? path t).map (·.id) := by
  have htarget : ∀ (n : Model) gs, (n.setsOfClass path t).map (fun s => (s.1, s.2.gist)) = gs →
      (n.defaultTarget? path t).map (·.id) =
        if gs.length = 1 then gs.head?.map (·.2.1) else (gs.find? fun g => g.2.2.2.1).map (·.2.1) := by
    rintro n _ rfl
    unfold Model.defaultTarget?
    rcases n.setsOfClass path t with _ | ⟨s, _ | ⟨s', sets⟩⟩
    · rfl
    · rfl
    · rw [List.find?_map, Option.map_map, Option.map_map]
      rfl
  rw [htarget m' _ (setsOfClass h path t), htarget m _ rfl]

theorem linkProperty : m'.linkProperty path = m.linkProperty path := by
  funext p
  unfold Model.linkProperty
  have hbind : (p.property.type.raw.class?.bind (m'.defaultTarget? path)).map (·.id) =
      (p.property.type.raw.class?.bind (m.defaultTarget? path)).map (·.id) := by
    rcases p.property.type.raw.class? with _ | t
    · rfl
    · exact defaultTarget? h path t
  rcases map_eq_cases hbind with ⟨hm, hm'⟩ | ⟨s, s', hm, hm', hid⟩ <;> rw [hm, hm']
  simp only [hid]

theorem linkBase : m'.linkBase path = m.linkBase path := by
  funext b
  rw [Model.linkBase, Model.linkBase, linkProperty h]

theorem linkParameter : m'.linkParameter path = m.linkParameter path := by
  funext span id
  unfold Model.linkParameter
  rcases map_eq_cases (setById? h path id) with ⟨hm, hm'⟩ | ⟨s, s', hm, hm', hs⟩ <;> rw [hm, hm']
  have hfst : s'.1 = s.1 := (Prod.mk.inj hs).1
  simp only [hfst]

omit path in
theorem endType : m'.endType = m.endType := by
  funext path id given
  unfold Model.endType
  rcases map_eq_cases (setById? h path id) with ⟨hm, hm'⟩ | ⟨s, s', hm, hm', hs⟩ <;> rw [hm, hm']
  have hclass : s'.2.base.className = s.2.base.className := congrArg (fun g => g.2.2.1) hs
  simp only [hclass]

end Gist

mutual

theorem linkSet [Sight S] [Sees S gist] (h : S m m') (path : String) :
    ∀ s : SetImplementation, m'.linkSet path s = m.linkSet path s
  | .instances b source filter => by rw [Model.linkSet, Model.linkSet, linkBase h]
  | .relational b database table isDistinct => by rw [Model.linkSet, Model.linkSet, linkBase h]
  | .operation b operator function parameters validation => by
    rw [Model.linkSet, Model.linkSet, linkBase h, linkParameter h]
  | .aggregation b main aggregates => by
    rw [Model.linkSet, Model.linkSet, linkBase h, linkSet h path main, linkAggregates h path aggregates]

theorem linkAggregates [Sight S] [Sees S gist] (h : S m m') (path : String) :
    ∀ l : List (AggregateSpec × SetImplementation), m'.linkAggregates path l = m.linkAggregates path l
  | [] => rfl
  | (spec, s) :: rest => by
    rw [Model.linkAggregates, Model.linkAggregates, linkSet h path s, linkAggregates h path rest]

end


/-! ### Whole mappings -/

section Whole

variable [Sees S (id : Mapping → Mapping)] (h : S m m')
include h

theorem mapping? : m'.mapping? = m.mapping? := funext fun p => by simpa using map (f := id) h p

theorem setsOf : m'.setsOf = m.setsOf := by
  funext p
  rw [Model.setsOf, Model.setsOf, mapping? h]

theorem setIds : m'.setIds = m.setIds := by
  funext p
  rw [Model.setIds, Model.setIds, setsOf h]

theorem enumMappingIds : m'.enumMappingIds = m.enumMappingIds := by
  funext p
  rw [Model.enumMappingIds, Model.enumMappingIds, mapping? h]

theorem checkRoots : m'.checkRoots = m.checkRoots := by
  funext p span
  rw [Model.checkRoots, Model.checkRoots, setsOf h]

theorem visitStores : ∀ fuel, m'.visitStores fuel = m.visitStores fuel
  | 0 => rfl
  | fuel + 1 => by
    funext substitutions done p
    rw [Model.visitStores, Model.visitStores, visitStores fuel, setsOf h, mapping? h]

variable [Sight S]

theorem includeOrder : m'.includeOrder = m.includeOrder := by
  funext p
  rw [Model.includeOrder, Model.includeOrder, includesOf h, (Sight.like h).length]

theorem repeatedId? : m'.repeatedId? = m.repeatedId? := by
  funext ids p
  rw [Model.repeatedId?, Model.repeatedId?, includeOrder h]

theorem storesOf : m'.storesOf = m.storesOf := by
  funext p
  rw [Model.storesOf, Model.storesOf, visitStores h, (Sight.like h).length]

theorem checkCoverage : m'.checkCoverage = m.checkCoverage := by
  funext r
  rw [Model.checkCoverage, Model.checkCoverage, storesOf h]

theorem resolve (path : String) : (Context.of m' path).resolve = (Context.of m path).resolve := by
  funext c p span
  refine Context.search_congr (Sight.context h path).toLike (fun q => ?_) p span
  change m'.lookup c q span = m.lookup c q span
  rw [lookup, lookup, Model.find?, Model.find?, (Sight.like h).declared? (congrFun (mapping? h))]

end Whole

end Model.Sees
end ModelGraph
