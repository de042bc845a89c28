/-
# The properties that class mappings map

A class mapping maps properties that its class lists: the class itself or one that it extends has
them, as its own or from an association. This holds of mappings by expressions at any depth, but for
properties that are local to a mapping. A mapping from a column may name a class of its own, and it is
there that its property is looked for; so the class of the class mapping lists it if no class is
named, or if it is the class that is named or extends it.

Key definitions: `PropertyMappingDecl.MapsOf`, `PropertyMappingDecl.MapsNamed`.
Key theorems: `ClassMappingDecl.build_maps`, `Model.outlines_linkSet`,
`Document.mapped_properties_listed`.
-/
import ModelGraph.Proofs.Build.Course
import ModelGraph.Proofs.Mapping.Checks
import ModelGraph.Proofs.Mapping.Typing
import ModelGraph.Proofs.Model.Resolution
import ModelGraph.Proofs.Service.Coverage

namespace ModelGraph

open Model Build Document List Option Result Pass

variable {name : String} {span : Span} {y : PropertyMappingDecl} {base : SetBase} {a : ClassMappingAttrs}
  {s : SetImplementation} {q : PropertyMapping} {i : Nat} {x : MappingDecl}

namespace PropertyMappingDecl

/-- The class in which a mapping from a column looks for its property, if `t` is the class mapped. -/
def classIn (y : PropertyMappingDecl) (t : TypeRef) : String :=
  if y.property.className = "" then t.path else y.property.className

/-- A mapping by an expression in a class mapping of `t`, of a property that is local or not. If not,
`t` lists it under the name that is written or under that of all its versions. -/
structure MapsOf (m : Model) (t : TypeRef) (y : PropertyMappingDecl) (p : Property × Bool) : Prop where
  isLocal : p.2 = y.localProperty.isSome
  lists : p.2 = false → m.HasStored t p.1 ∧
    (p.1.name = y.property.property ∨ p.1.name = y.property.property ++ allVersions)

/-- A mapping from a column in a class mapping of `t`, of the mapping `path`. The class that is named
lists the property, and so does `t` if none is named or if it is that class or extends it. -/
structure MapsNamed (m : Model) (path : String) (t : TypeRef) (outer : Span) (y : PropertyMappingDecl)
    (p : Property × Bool) : Prop where
  isLocal : p.2 = false
  name : p.1.name = y.property.property
  lists : ∃ u, (Context.of m path).resolveClass (y.classIn t) (y.span.orElse outer) = .ok u ∧ m.HasStored u p.1 ∧
    (y.property.className = "" → u = t) ∧ (u ∈ m.order t → m.HasStored t p.1)

end PropertyMappingDecl

/-- A class mapping in outline: its form, the class, and the properties with whether they are local. -/
structure SetOutline where
  form : SetForm
  className : TypeRef
  properties : List (Property × Bool)

/-- A class mapping of the mapping `path` goes with its declaration. -/
structure ClassMappingAttrs.Maps (m : Model) (path : String) (a : ClassMappingAttrs) (s : SetOutline) : Prop where
  className : (Context.of m path).resolveClass a.className (a.classSpan.orElse a.span) = .ok s.className
  instances : s.form = .instances → Forall₂ (PropertyMappingDecl.MapsOf m s.className) a.properties s.properties
  relational : s.form = .relational →
    Forall₂ (PropertyMappingDecl.MapsNamed m path s.className a.span) a.properties s.properties
  others : s.form ≠ .instances → s.form ≠ .relational → s.properties = []

namespace ClassMappingDecl

mutual

/-- The class mappings that a declaration holds, the outermost first. -/
def nested : ClassMappingDecl → List ClassMappingAttrs
  | mk a main aggregates =>
    if a.tag = "aggregationAware" then
      a :: ((match main with
        | none => []
        | some d => nested d) ++ nestedAggregates aggregates)
    else [a]

def nestedAggregates : List (AggregateHead × ClassMappingDecl) → List ClassMappingAttrs
  | [] => []
  | (_, d) :: rest => nested d ++ nestedAggregates rest

end

end ClassMappingDecl

/-- The class mapping with a form and a common part. -/
def SetBase.outline (b : SetBase) (form : SetForm) : SetOutline :=
  { form, className := b.className, properties := b.properties.map fun p => (p.property, p.isLocal) }

namespace SetImplementation

mutual

/-- A class mapping and those inside it, the outermost first. -/
def outlines : SetImplementation → List SetOutline
  | instances b _ _ => [b.outline .instances]
  | operation b _ _ _ _ => [b.outline .operation]
  | relational b _ _ _ => [b.outline .relational]
  | aggregation b main aggregates => b.outline .aggregation :: (outlines main ++ outlinesOfAggregates aggregates)

def outlinesOfAggregates : List (AggregateSpec × SetImplementation) → List SetOutline
  | [] => []
  | (_, s) :: rest => outlines s ++ outlinesOfAggregates rest

end

end SetImplementation

variable {m n : Model} {path : String} {t u : TypeRef} {p : Property} {K : Option Category → Prop}

/-! ### Listed properties -/

theorem Model.Tidy.hasStored_of_mem_order (hm : m.Tidy) (hu : u ∈ m.order t) (h : m.HasStored u p) : m.HasStored t p := by
  obtain ⟨y, hy, hp⟩ := h
  obtain ⟨hs, hc⟩ := mem_classOrder.1 hy
  refine ⟨y, mem_classOrder.2 ⟨?_, hc⟩, hp⟩
  rw [hm.mem_order] at hu hs ⊢
  exact hu.trans hs

/-! ### Names of classes -/

theorem Model.Tidy.resolveClass_path (hm : m.Tidy) (hp : m.Packaged)
    (h : (Context.of m path).resolveClass name span = .ok t) (span' : Span) :
    (Context.of m path).resolveClass t.path span' = .ok t := by
  obtain ⟨e, he, rfl⟩ := map_eq_ok.1 h
  obtain ⟨helement, hof⟩ := hm.element?_of_resolve he
  have hkind := isOf_type hof
  obtain ⟨k, hk⟩ := isSome_iff_exists.1 hkind
  have hpath : (Context.asType e).path = e.path := by
    simp [Context.asType, Element.typeRef?, hk]
  have hqualified : Path.isQualified e.path = true ∧ m.find? .classType e.path = some e := by
    unfold element? at helement
    split at helement
    · rename_i x hx
      cases helement
      refine ⟨hp hx, ?_⟩
      unfold Model.find?
      rw [hx, filter_some, if_pos hof]
    · rename_i hnone
      have hclass : e.class?.isSome := by
        unfold Element.isOf Element.category? at hof
        unfold Element.class?
        cases hc : e.content <;> simp [hc] at hof ⊢
      obtain ⟨c, hc⟩ := isSome_iff_exists.1 hclass
      have hqualified := Library.class_isQualified helement hc
      refine ⟨hqualified, ?_⟩
      have hpackage : e.path ≠ "Package" := by
        intro heq
        rw [heq] at hqualified
        exact absurd hqualified (by decide)
      unfold Model.find?
      rw [hnone, if_neg hpackage, helement]
      exact filter_some_pos (by simpa [fromLibrary] using hof)
  have hresolve : (Context.of m path).resolve .classType e.path span' = .ok e := by
    rw [Context.resolve, Context.search, if_pos (by rw [hqualified.1, Bool.or_true])]
    exact lookup_eq_ok.2 hqualified.2
  rw [hpath, Context.resolveClass, hresolve]
  rfl

/-! ### Models that have grown -/

/-- A model `m` that has grown from `n`, with the same classes, enumerations and imports. -/
structure Model.Retains (n m : Model) : Prop where
  tidy : n.Tidy
  grows : Grows (outside [.classType, .enumeration]) n m
  imports : m.imports = n.imports

namespace Model.Retains

variable (h : n.Retains m)
include h

theorem noted {k : Model} (hk : n.Noted k) : k.Retains m :=
  ⟨hk.grows.tidy (K := among []) h.tidy, hk.symm.grows.trans h.grows, h.imports.trans hk.symm.imports⟩

theorem resolveClass (path : String) : (Context.of m path).resolveClass = (Context.of n path).resolveClass := by
  funext name span
  rw [Context.resolveClass, Context.resolveClass, h.grows.resolve h.imports (by decide) (by simp [outside])]

theorem hasStored (hp : n.HasStored t p) : m.HasStored t p := by
  obtain ⟨y, hy, hp⟩ := hp
  obtain ⟨hs, hc⟩ := mem_classOrder.1 hy
  exact ⟨y, mem_classOrder.2 ⟨h.grows.mem_order h.tidy hs, by rw [h.grows.class? (by simp [outside]), hc]⟩, hp⟩

end Model.Retains

/-! ### Building class mappings -/

/-- What a mapping by an expression maps is found in the class that is mapped. -/
theorem PropertyMappingDecl.Builds.maps (hr : n.Retains m) (h : y.Builds n path t q) :
    y.MapsOf m t (q.property, q.isLocal) := by
  obtain ⟨k, hk, h⟩ := h.found
  generalize (q.property, q.isLocal) = r at h ⊢
  unfold ClassMappingAttrs.propertyOf at h
  split at h
  · rename_i hnone
    obtain ⟨found, hfound, rfl⟩ := map_eq_ok.1 h
    exact ⟨by rw [hnone]; rfl, fun _ =>
      (ClassMappingAttrs.hasStored_of_mappedProperty hfound).imp_left (hr.noted hk).hasStored⟩
  · rename_i own hsome
    obtain ⟨type, -, h⟩ := bind_eq_ok.1 h
    cases h
    exact ⟨by rw [hsome]; rfl, fun h => by cases h⟩

theorem Relational.buildProperty_maps (hr : n.Retains m) (hm : m.Tidy) (hp : m.Packaged) {id database : String}
    {main : TableRef} {outer : Span} (ht : (Context.of m path).resolveClass name span = .ok t)
    (h : buildProperty (Context.of n path) id database main t outer y = .ok q) :
    y.MapsNamed m path t outer (q.property, q.isLocal) := by
  obtain ⟨⟨u, hu, hfound⟩, hlocal, -⟩ := buildProperty_ok h
  obtain ⟨hlists, hname⟩ := (hasStored_of_property hfound).imp_left hr.hasStored
  rw [← hr.resolveClass] at hu
  refine ⟨hlocal, hname, u, hu, hlists, fun hnone => ?_, fun hmem => hm.hasStored_of_mem_order hmem hlists⟩
  rw [if_pos hnone, hm.resolveClass_path hp ht] at hu
  exact (Except.ok.inj hu).symm

/-- **A class mapping maps properties of its class, and so do those inside it.** -/
theorem ClassMappingDecl.build_maps (hr : n.Retains m) (hm : m.Tidy) (hp : m.Packaged) :
    ∀ (d : ClassMappingDecl) (fallback : String),
      (build path d fallback).Compiles n fun s => Forall₂ (ClassMappingAttrs.Maps m path) d.nested s.outlines := by
  have hclass {a k b} (hb : ClassMappingAttrs.Heads n path a k b) :
      (Context.of m path).resolveClass a.className (a.classSpan.orElse a.span) = .ok b.className :=
    (hr.noted hb.noted).resolveClass path ▸ hb.className
  refine BuildLaws.compiles ⟨?_, ?_⟩
  · intro a main aggregates k b s hb hne hs
    have hnested : nested (mk a main aggregates) = [a] := by
      cases main <;> rw [nested, if_neg hne]
    rw [hnested]
    rcases hs with ⟨hps, -⟩ | - | hps
    · exact .cons ⟨hclass hb, fun _ => forall₂_map_right_iff.2 (hps.imp fun _ _ h => h.maps hr),
        fun h => (by cases h), fun h => (h rfl).elim⟩ .nil
    · exact .cons ⟨hclass hb, fun h => (by cases h), fun h => (by cases h),
        fun _ _ => by rw [SetBase.outline, hb.properties]; rfl⟩ .nil
    · exact .cons ⟨hclass hb, fun h => (by cases h), fun _ => forall₂_map_right_iff.2 (hps.imp fun _ _ h =>
        Relational.buildProperty_maps (hr.noted hb.noted) hm hp (hclass hb) h), fun _ h => (h rfl).elim⟩ .nil
  · intro a d aggregates k b s ss hb haggregation hs hss
    have hall : Forall₂ (ClassMappingAttrs.Maps m path) (nestedAggregates aggregates)
        (SetImplementation.outlinesOfAggregates ss) := by
      induction hss with
      | nil => exact .nil
      | cons hy _ ih =>
        rw [nestedAggregates, SetImplementation.outlinesOfAggregates]
        exact rel_append hy.1 ih
    rw [nested, if_pos haggregation, SetImplementation.outlines]
    exact .cons ⟨hclass hb, fun h => (by cases h), fun h => (by cases h),
      fun _ _ => by rw [SetBase.outline, hb.properties]; rfl⟩ (rel_append hs hall)

theorem ClassMappingAttrs.Maps.lists {s : SetOutline} (h : a.Maps m path s) (hs : s.form ≠ .relational) : ∀ q ∈ s.properties, q.2 = false → m.HasStored s.className q.1 := by
  intro q hq hlocal
  by_cases hform : s.form = .instances
  · obtain ⟨y, -, hy⟩ := exists_of_forall₂ (h.instances hform) hq
    exact (hy.lists hlocal).1
  · exact absurd (h.others hform hs ▸ hq) not_mem_nil

/-! ### Marking roots and linking -/

namespace SetImplementation

theorem outlines_withBase {f : SetBase → SetBase} (hf : ∀ form, (f s.base).outline form = s.base.outline form) : (s.withBase f).outlines = s.outlines := by
  cases s <;> simp only [outlines] <;> exact congrArg (· :: _) (hf _)

theorem outlines_markRoots (sets : List SetImplementation) :
    (markRoots sets).flatMap outlines = sets.flatMap outlines := by
  rw [markRoots, flatMap_map]
  refine flatMap_congr fun s _ => ?_
  split
  · exact outlines_withBase fun _ => rfl
  · rfl

end SetImplementation

namespace Model

open SetImplementation

theorem outline_linkBase (m : Model) (path : String) (b : SetBase) (form : SetForm) :
    (m.linkBase path b).outline form = b.outline form := by
  refine congrArg (SetOutline.mk form b.className) (map_map.trans (map_congr_left fun p _ => ?_))
  unfold Function.comp linkProperty
  split
  · rfl
  · split <;> rfl

mutual

/-- Linking a class mapping leaves what it maps, at any depth. -/
theorem outlines_linkSet : ∀ {s s' : SetImplementation}, m.linkSet path s = .ok s' → s'.outlines = s.outlines
  | .instances b source filter, s', h => by
    cases h
    rw [outlines, outlines, outline_linkBase]
  | .relational b database table isDistinct, s', h => by
    cases h
    rw [outlines, outlines, outline_linkBase]
  | .operation b operator function parameters validation, s', h => by
    obtain ⟨_, -, h⟩ := bind_eq_ok.1 h
    cases h
    rw [outlines, outlines, outline_linkBase]
  | .aggregation b main aggregates, s', h => by
    obtain ⟨main', hmain, h⟩ := bind_eq_ok.1 h
    obtain ⟨aggregates', haggregates, h⟩ := bind_eq_ok.1 h
    cases h
    rw [outlines, outlines, outline_linkBase, outlines_linkSet hmain, outlines_linkAggregates haggregates]

theorem outlines_linkAggregates : ∀ {as as' : List (AggregateSpec × SetImplementation)},
    m.linkAggregates path as = .ok as' → outlinesOfAggregates as' = outlinesOfAggregates as
  | [], as', h => by
    cases h
    rfl
  | (spec, s) :: rest, as', h => by
    obtain ⟨s', hs, h⟩ := bind_eq_ok.1 h
    obtain ⟨rest', hrest, h⟩ := bind_eq_ok.1 h
    cases h
    rw [outlinesOfAggregates, outlinesOfAggregates, outlines_linkSet hs, outlines_linkAggregates hrest]

end

theorem outlines_link {sets sets' : List SetImplementation}
    (h : Forall₂ (fun s s' => m.linkSet path s = .ok s') sets sets') :
    sets'.flatMap outlines = sets.flatMap outlines := by
  induction h with
  | nil => rfl
  | cons hs _ ih => rw [flatMap_cons, flatMap_cons, outlines_linkSet hs, ih]

end Model

/-! ### The course of mappings -/

variable {d : Document} {o : Options}

theorem Build.register_imports {header : Header} {content : ElementContent} {annotations : Annotations} :
    (Build.register header content annotations).Ensures m fun _ m' => m'.imports = m.imports :=
  ensures_register.2 fun _ h => (register_ok h).2.2.2

theorem ConnectionElementDecl.buildStep_imports (x : ConnectionElementDecl) :
    x.buildStep.Ensures m fun _ m' => m'.imports = m.imports := by
  unfold buildStep
  simp only [ensures_bind, ensures_context, ensures_liftM, ensures_modify]
  exact fun _ _ => rfl

theorem RuntimeElementDecl.buildStep_imports (x : RuntimeElementDecl) :
    x.buildStep.Ensures m fun _ m' => m'.imports = m.imports := by
  refine x.buildStep_effect.mono ?_
  rintro _ _ ⟨r, -, rfl⟩
  rfl

theorem Pass.each_imports {α : Type} {decls : List α} {header : α → Header} {step : α → Build Unit}
    (hstep : ∀ x n, (step x).Ensures n fun _ n' => n'.imports = n.imports)
    (hrun : (each name decls header step).run n = .ok ((), m)) : m.imports = n.imports :=
  ensures_each_keeps (I := fun k => k.imports = n.imports) rfl
    (fun x _ k hk => (hstep x k).mono fun _ _ h => h.trans hk) _ _ hrun

namespace Document.Progress

theorem final_imports (t : d.Progress o m) : m.imports = t.mapped.imports := by
  obtain ⟨n, hdeclare, n', hbuild, hn'⟩ := t.connectionRuns
  cases hn'
  calc m.imports
    _ = t.served.imports := t.noted.imports
    _ = t.named.imports := each_imports (fun x _ => x.buildStep_imports) t.buildRuntimes
    _ = t.connected.imports := each_imports (fun _ _ => register_imports) t.declareRuntimes
    _ = n.imports := each_imports (fun x _ => x.buildStep_imports) hbuild
    _ = t.linked.imports := each_imports (fun _ _ => register_imports) hdeclare
    _ = t.mapped.imports := each_imports (fun x _ => x.linkStep_imports) t.linkMappings

/-- The class mappings of mapping `i` are built in a model with the classes of the finished one. Then
roots are marked, and what comes of that is linked. -/
theorem sets_at (t : d.Progress o m) (hx : d.mappings[i]? = some x) :
    ∃ (n n' k : Model) (built : List SetImplementation) (y : Mapping), n.Retains m ∧
      x.classMappings.mapM (fun s => s.build x.header.path "") n = .ok (built, n') ∧
      m.mapping? x.header.path = some y ∧
      Forall₂ (fun s s' => k.linkSet x.header.path s = .ok s') (markRoots built) y.sets := by
  obtain ⟨n, n', hat, hstep, -, hafter, himports⟩ := t.structuredAt.own_entry setsStep_other t.mappedAt (by decide) rfl rfl hx
  obtain ⟨k, k', -, hstep', hbefore', hafter', -⟩ := t.mappedAt.own_entry linkStep_other t.linkedAt (by decide) rfl rfl hx
  have hgrows : Grows (within [.mapping, .connection, .runtime]) n m :=
    t.grows hat (by decide) (fun _ => by decide) (by decide)
  have hretains : n.Retains m := ⟨hat.tidy, hgrows.of_within (by simp), t.final_imports.trans himports⟩
  -- What the two steps for the mapping have left is there in the end.
  obtain ⟨built, built', hrun, htable⟩ := x.setsStep_table _ _ hstep
  obtain ⟨sets', assocMappings, tests, hlink, htable', -⟩ := x.linkStep_table _ _ hstep'
  have hlinked : m.mapping? x.header.path = k'.mapping? x.header.path := (t.final_mapping? _).trans hafter'
  have hbuilt : k.mapping? x.header.path = n'.mapping? x.header.path := hbefore'.trans hafter
  obtain ⟨y, hy⟩ := has_mapping.1 (t.mapping?_isSome.2 (mem_mappingPaths (mem_of_getElem? hx)))
  have hfinal := hy
  rw [hlinked, htable', if_pos rfl] at hfinal
  obtain ⟨y', hy', rfl⟩ := map_eq_some_iff.1 hfinal
  rw [setsOf_map_snd hy', mapM_eq_ok] at hlink
  rw [hbuilt, htable, if_pos rfl] at hy'
  obtain ⟨y'', -, rfl⟩ := map_eq_some_iff.1 hy'
  exact ⟨n, built', k, built, _, hretains, hrun, hy, hlink⟩

/-- **The class mappings of mapping `i` in the end go with their declarations.** -/
theorem sets_mapped (t : d.Progress o m) (hp : m.Packaged) (hx : d.mappings[i]? = some x) :
    ∃ y, m.mapping? x.header.path = some y ∧
      Forall₂ (ClassMappingAttrs.Maps m x.header.path) (x.classMappings.flatMap (·.nested))
        (y.sets.flatMap (·.outlines)) := by
  obtain ⟨n, n', k, built, y, hr, hrun, hy, hlink⟩ := t.sets_at hx
  refine ⟨y, hy, ?_⟩
  rw [outlines_link hlink, SetImplementation.outlines_markRoots]
  have hsets := (compiles_mapM_forall₂ fun s _ =>
    ClassMappingDecl.build_maps hr (hr.grows.tidy hr.tidy) hp s "").ensures _ _ hrun
  exact rel_flatMap hsets.2 fun _ _ h => h

end Document.Progress

/-- **Mapped properties belong to the mapped class, but for those of named classes.** In a model that
was built, the class mappings of a mapping, those inside others included, go with their declarations.
So each of them that is not from a table maps properties that its class lists, but for local ones. One
from a table maps of each class that it names what that class lists, which the mapped class lists if
it is the class that is named or extends it. -/
theorem Document.mapped_properties_listed (h : (d.build o).result = .ok m) {y : Mapping}
    (hy : m.mapping? path = some y) :
    ∃ x ∈ d.mappings, x.header.path = path ∧
      Forall₂ (ClassMappingAttrs.Maps m path) (x.classMappings.flatMap (·.nested)) (y.sets.flatMap (·.outlines)) ∧
      ∀ s ∈ y.sets.flatMap (·.outlines), s.form ≠ .relational →
        ∀ p ∈ s.properties, p.2 = false → m.HasStored s.className p.1 := by
  obtain ⟨t⟩ := exists_trace h
  have hpackaged : m.Packaged := (enrolls_of_runs (List.Subset.refl _) ((runPasses_result _ _).1 h)).packaged rfl
  obtain ⟨x, hx, rfl⟩ := mem_map.1 (t.mapping?_isSome.1 (has_mapping.2 ⟨y, hy⟩))
  obtain ⟨i, hi⟩ := getElem?_of_mem hx
  obtain ⟨y', hy', hmaps⟩ := t.sets_mapped hpackaged hi
  cases hy.symm.trans hy'
  refine ⟨x, hx, rfl, hmaps, fun s hs hform => ?_⟩
  obtain ⟨a, -, ha⟩ := exists_of_forall₂ hmaps hs
  exact ha.lists hform

/-- Two classes and one that extends the first. The first is mapped from a table, with a property of
the second, and the third from instances of the second. -/
def Document.namedClass : Document :=
  { classes :=
      [{ header := { package := "m", name := "P" }, properties := [member "p"] },
       { header := { package := "m", name := "Q" }, properties := [member "q"] },
       { header := { package := "m", name := "S" }, superTypes := [{ path := "m::P" }] }]
    extensions := [database]
    mappings :=
      [{ header := { package := "m", name := "M" }
         classMappings :=
           [.mk { tag := "relational", className := "m::P", id := "p", raw := substitutedStore.set
                  properties := [{ tag := Relational.propertyTag, property := { className := "m::Q", property := "q" }
                                   raw := column }] } none [],
            .mk { tag := "pureInstance", className := "m::S", id := "s", srcClass := "m::Q"
                  properties := [{ tag := PropertyMappingDecl.expressionTag, property := { property := "p" }
                                   transform := some source }] } none []] }] }
where
  member (name : String) : PropertyDecl := { name, typeName := "String", bounds := { lower := 1, upper := some 1 } }
  source : Node := .mk { tag := "lambda" } [] [.mk { tag := "property", property := "q" }
    [.mk { tag := "var", name := "src" } [] [] [] []] [] [] []] [] []
  column : Json := .object "" [("relationalOperation", .object "" [("_type", substitutedStore.text "column"),
    ("column", substitutedStore.text "C")])]
  database : ExtensionDecl :=
    { tag := "relational"
      header := { package := "m", name := "D" }
      raw := .object "" [("schemas", .array "" [.object "" [("name", substitutedStore.text "default"),
        ("tables", .array "" [.object "" [("name", substitutedStore.text "T"), ("columns", .array "" [.object ""
          [("name", substitutedStore.text "C"), ("type", .object "" [("_type", substitutedStore.text "Varchar")])]])]])]])] }

/-- The names of the properties that the class mappings of a mapping map, by the classes. -/
def Mapping.names (y : Mapping) : List (SetForm × TypeRef × List (String × Bool)) :=
  (y.sets.flatMap (·.outlines)).map fun s => (s.form, s.className, s.properties.map fun p => (p.1.name, p.2))

set_option synthInstance.maxSize 256 in
theorem Document.namedClass_built : ∃ m y, (namedClass.build { extensions := [.relational] }).result = .ok m ∧
    m.mapping? "m::M" = some y ∧
    y.names = [(.relational, Library.classRef "m" "P", [("q", false)]), (.instances, Library.classRef "m" "S", [("p", false)])] ∧
    ∀ k ∈ m.classOrder (Library.classRef "m" "P"), ∀ p ∈ k.2.properties ++ k.2.assocProperties, p.name ≠ "q" := by
  simp only [exists_and_left]
  exact exists_build_of_acyclic (by decide +kernel)

/-- The class that is mapped from instances lists what it maps, from the class that it extends. -/
theorem Document.namedClass_listed : ∃ m y x, (namedClass.build { extensions := [.relational] }).result = .ok m ∧
    m.mapping? "m::M" = some y ∧
    y.names = [(.relational, Library.classRef "m" "P", [("q", false)]), (.instances, Library.classRef "m" "S", [("p", false)])] ∧
    x ∈ namedClass.mappings ∧
    Forall₂ (ClassMappingAttrs.Maps m "m::M") (x.classMappings.flatMap (·.nested)) (y.sets.flatMap (·.outlines)) ∧
    ∀ s ∈ y.sets.flatMap (·.outlines), s.form ≠ .relational →
      ∀ p ∈ s.properties, p.2 = false → m.HasStored s.className p.1 := by
  obtain ⟨m, y, h, hy, hnames, -⟩ := namedClass_built
  obtain ⟨x, hx, -, hmaps, hlists⟩ := mapped_properties_listed h hy
  exact ⟨m, y, x, h, hy, hnames, hx, hmaps, hlists⟩

/-- The class that is mapped from a table does not list what is mapped. -/
theorem Document.namedClass_unlisted : ∃ m y, (namedClass.build { extensions := [.relational] }).result = .ok m ∧
    m.mapping? "m::M" = some y ∧ ∃ s ∈ y.sets.flatMap (·.outlines), ∃ p ∈ s.properties, p.2 = false ∧
      ¬ m.HasStored s.className p.1 := by
  obtain ⟨m, y, h, hy, hnames, hnone⟩ := namedClass_built
  have hset : (.relational, Library.classRef "m" "P", [("q", false)]) ∈ y.names := by
    rw [hnames]
    exact .head _
  obtain ⟨⟨form, t, ps⟩, hs, heq⟩ := mem_map.1 hset
  obtain ⟨rfl, rfl, p, rfl, hname⟩ : form = .relational ∧ t = Library.classRef "m" "P" ∧
      ∃ p : Property, ps = [(p, false)] ∧ p.name = "q" := by simpa using heq
  refine ⟨m, y, h, hy, _, hs, _, mem_singleton_self _, rfl, ?_⟩
  rintro ⟨k, hk, hmem⟩
  exact hnone k hk _ hmem hname

end ModelGraph
