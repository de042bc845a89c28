/-
# Failures have positions

A pass over declarations tells a failure without a position at the declaration that it was
working on. The passes over a document as a whole look for a position themselves: they fail
at a declaration, or at the element that a declaration has made. The one exception is the
check of source values, which fails at an enumeration mapping. That is a part of a
declaration and may have no position although every declaration has one.

Key definitions: `Failure.Placed`, `Document.Located`.
Key theorems: `checkMappings_throws`, `checkExtensions_placed`, `Document.failures_positioned`.
-/
import ModelGraph.Proofs.Build.Indices
import ModelGraph.Proofs.Search.Cycle

namespace ModelGraph

open Model Build List Option Result Failure Relational

variable {m : Model} {f : Failure} {P : Failure → Prop}

/-! ### Failures at declarations -/

/-- The failure has a known position, or an unsupported request is behind it. -/
def Failure.Placed (f : Failure) : Prop := f.isUnsupported = true ∨ f.hasSpan = true

theorem Failure.placed_of {span : Span} (h : span.isKnown = true) (problem : Problem) :
    (Failure.of span problem).Placed := .inr h

theorem Failure.anchor_placed {span : Span} (h : span.isKnown = true) (f : Failure) (path : String) :
    (f.anchor path span).Placed := by
  unfold anchor
  split
  · rename_i hf
    exact (Bool.or_eq_true _ _).mp hf
  · exact .inr h

/-- **A pass over declarations with positions fails with one.** -/
theorem Pass.each_placed {α : Type} {name : String} {decls : List α} {header : α → Header}
    {step : α → Build Unit} (h : ∀ d ∈ decls, (header d).span.isKnown = true) :
    (Pass.each name decls header step).run.Throws Placed := by
  refine throws_forM fun d hd n f hf => ?_
  rcases hstep : step d n with e | a <;> simp only [hstep] at hf <;> cases hf
  exact e.anchor_placed (h d hd) _

/-! ### Passes over the whole document -/

theorem SectionIndexDecl.declare_placed {d : SectionIndexDecl} (h : d.header.span.isKnown = true) :
    d.declare.Throws Placed :=
  (throws_register (placed_of h)).bind fun _ => throws_modify _

theorem checkSupertypeCycles_placed {classes : List ClassDecl}
    (h : ∀ c ∈ classes, c.header.span.isKnown = true) : (checkSupertypeCycles classes).Throws Placed := by
  refine throws_get.bind fun m => ?_
  simp only
  split
  · exact throws_pure _
  · rename_i cycle hcycle
    obtain ⟨start, rest, rfl, hstart⟩ := Search.firstCycle?_start hcycle
    obtain ⟨c, hc, hpath⟩ := mem_map.1 hstart
    rcases hfind : classes.find? fun c => (start :: rest).head? = some c.header.path with _ | first
    · exact absurd (by simp [hpath]) (find?_eq_none.1 hfind c hc)
    · rw [hfind]
      exact throws_fail (placed_of (h first (mem_of_find?_eq_some hfind)) _)

theorem checkIncludeCycles_placed {mappings : List MappingDecl}
    (h : ∀ d ∈ mappings, d.header.span.isKnown = true) :
    Result.Throws Placed (checkIncludeCycles mappings) := by
  unfold checkIncludeCycles
  simp only
  split
  · split
    · rename_i d hfind
      exact throws_failAt (placed_of (h d (mem_of_find?_eq_some hfind)) _)
    · exact throws_ok _
  · exact throws_ok _

namespace Model

variable {span : Span}

theorem checkIds_throws (path : String) (h : ∀ problem, P (.of span problem)) :
    (checkIds path span).Throws P := by
  refine throws_get.bind fun m => ?_
  split
  · exact throws_fail (h _)
  · refine (throws_set _).bind fun _ => ?_
    split
    · exact throws_fail (h _)
    · exact throws_pure _

theorem checkRoots_throws (m : Model) (path : String) (h : ∀ problem, P (.of span problem)) :
    Result.Throws P (m.checkRoots path span) :=
  throws_forM fun _ _ => throws_ite (throws_ok _) (throws_failAt (h _))

theorem checkNewInstances_throws (path : String) (h : ∀ problem, P (.of span problem)) :
    (checkNewInstances path span).Throws P := by
  refine throws_get.bind fun m => throws_forM fun s _ => ?_
  split
  · refine throws_forM fun p _ => throws_forM fun statement _ => throws_forM fun e _ => ?_
    refine throws_ite ((throws_fail (h _)).bind fun _ => ?_) ?_
    all_goals exact throws_modify _
  · exact throws_pure _

end Model

/-- The failure of an enumeration mapping of the document that has no position and source
values of several kinds. -/
def Document.MixedSources (d : Document) (f : Failure) : Prop :=
  ∃ x ∈ d.mappings, ∃ e ∈ x.enumMappings,
    e.span.isKnown = false ∧ 1 < e.sourceTags.length ∧ f = .of e.span .mixedSourceTypes

theorem checkMappings_throws {d : Document} (h : ∀ x ∈ d.mappings, x.header.span.isKnown = true) :
    (checkMappings d.mappings).Throws fun f => f.Placed ∨ d.MixedSources f := by
  have hat : ∀ x ∈ d.mappings, ∀ problem,
      (Failure.of x.header.span problem).Placed ∨ d.MixedSources (.of x.header.span problem) :=
    fun x hx problem => .inl (placed_of (h x hx) problem)
  have hcycles := (checkIncludeCycles_placed h).mono (Q := fun f => f.Placed ∨ d.MixedSources f)
    fun _ => .inl
  refine (throws_liftM hcycles).bind fun _ => ?_
  refine (throws_liftM (throws_forM fun x hx => throws_forM fun e he => ?_)).bind fun _ => ?_
  · -- The only check that does not fail at a declaration.
    unfold EnumerationMappingDecl.checkSources
    split
    · rename_i hmixed
      refine throws_failAt ?_
      rcases hspan : e.span.isKnown with _ | _
      · exact .inr ⟨x, hx, e, he, hspan, hmixed, rfl⟩
      · exact .inl (placed_of hspan _)
    · exact throws_ok _
  refine (throws_forM fun x hx => checkIds_throws _ (hat x hx)).bind fun _ => throws_get.bind fun m => ?_
  refine throws_ite ((throws_liftM (throws_forM fun x hx => ?_)).bind fun _ => ?_) ?_
  · exact checkRoots_throws m _ (hat x hx)
  all_goals exact throws_forM fun x hx => checkNewInstances_throws _ (hat x hx)

theorem Relational.checkIncludes_placed (hm : m.Distinct)
    (h : ∀ e ∈ m.elements, e.category? = some .store → e.span.isKnown = true) :
    Result.Throws Placed (checkIncludes m) := by
  unfold checkIncludes
  simp only
  split
  · rename_i e walk hfound
    refine throws_failAt (placed_of ?_ _)
    obtain ⟨x, hx, hwalk⟩ := exists_of_findSome?_eq_some hfound
    obtain ⟨_, _, hpair⟩ := map_eq_some_iff.1 hwalk
    obtain ⟨rfl, -⟩ := Prod.mk.inj hpair
    obtain ⟨hmem, hdatabase⟩ := mem_filter.1 (mem_mergeSort.1 hx)
    refine h x hmem ?_
    unfold database? at hdatabase
    rw [hm.declared? hmem] at hdatabase
    split at hdatabase
    · rename_i hcontent
      cases hcontent
      rfl
    · cases hdatabase
  · exact throws_ok _

theorem checkExtensions_placed (hm : m.Distinct)
    (h : ∀ e ∈ m.elements, e.category? = some .store → e.span.isKnown = true) :
    Result.Throws Placed (checkExtensions m) := by
  refine throws_forM_at (fun x _ => ?_) fun x _ n hn => ?_
  · exact checkIncludes_placed hm h
  · unfold checkIncludes at hn
    simp only at hn
    split at hn
    · cases hn
    · cases hn
      rfl

/-! ### Whole builds -/

namespace Document

variable {d : Document} {o : Options}

/-- Every declaration that becomes an element has a known position. -/
structure Located (d : Document) : Prop where
  sections : ∀ x ∈ d.sections, x.header.span.isKnown = true
  profiles : ∀ x ∈ d.profiles, x.header.span.isKnown = true
  classes : ∀ x ∈ d.classes, x.header.span.isKnown = true
  enumerations : ∀ x ∈ d.enumerations, x.header.span.isKnown = true
  associations : ∀ x ∈ d.associations, x.header.span.isKnown = true
  functions : ∀ x ∈ d.functions, x.header.span.isKnown = true
  measures : ∀ x ∈ d.measures, x.header.span.isKnown = true
  mappings : ∀ x ∈ d.mappings, x.header.span.isKnown = true
  connections : ∀ x ∈ d.connections, x.header.span.isKnown = true
  runtimes : ∀ x ∈ d.runtimes, x.header.span.isKnown = true
  extensions : ∀ x ∈ d.extensions, x.header.span.isKnown = true

theorem stores_located (hd : d.Located) {pre post : List Pass} (hsplit : d.passes o = pre ++ post)
    (hruns : Runs pre { options := o } m) :
    ∀ e ∈ m.elements, e.category? = some .store → e.span.isKnown = true := by
  intro e he hstore
  have hsub : pre ⊆ d.passes o := hsplit ▸ subset_append_left pre post
  have henrols := enrolls_of_runs hsub hruns
  have hentries := elements_of_runs hsplit hruns
  have hspans : m.elements.map (·.span) = ((d.entriesOf pre).map (·.1)).map (·.span) := henrols.spans
  -- The element stands where its declaration stands among those so far.
  obtain ⟨i, hi⟩ := mem_iff_getElem?.1 he
  have hentry := congrArg (·[i]?) hentries
  simp only [getElem?_map, hi] at hentry
  obtain ⟨⟨h, kind⟩, hy, hpair⟩ := map_eq_some_iff.1 hentry.symm
  have hspan := congrArg (·[i]?) hspans
  simp only [getElem?_map, hi, hy, map_some, Option.some.injEq] at hspan
  have hkind : kind = some .store := (Prod.mk.inj hpair).2.trans hstore
  subst hkind
  obtain ⟨p, -, hentries⟩ := mem_flatMap.1 (mem_of_getElem? hy)
  obtain ⟨x, hx, rfl⟩ := exists_extension hentries
  rw [hspan]
  exact hd.extensions x hx

theorem pass_throws (hd : d.Located) {pre post : List Pass} {p : Pass}
    (hsplit : d.passes o = pre ++ p :: post) (hruns : Runs pre { options := o } m) :
    Result.Throws (fun f => f.Placed ∨ d.MixedSources f) (p.run m) := by
  have hp : p ∈ d.passes o := hsplit ▸ mem_append_right _ (.head _)
  simp only [passes, domainPasses, mappingPasses, mem_append, mem_cons, not_mem_nil,
    or_false] at hp
  have hwhole {q : Build Unit} (h : q.Throws Placed) :
      Result.Throws (fun f => f.Placed ∨ d.MixedSources f) (q m) := (h m).mono fun _ => .inl
  have heach {α : Type} {name : String} {decls : List α} {header : α → Header} {step : α → Build Unit}
      (h : ∀ x ∈ decls, (header x).span.isKnown = true) :
      Result.Throws (fun f => f.Placed ∨ d.MixedSources f) ((Pass.each name decls header step).run m) :=
    hwhole (Pass.each_placed h)
  rcases hp with ((hp | hp) | hp) | hp
  · rcases hp with rfl | rfl | rfl | rfl | rfl | rfl | rfl
    · exact hwhole (throws_forM fun x hx => x.declare_placed (hd.sections x hx))
    · exact heach hd.profiles
    · exact heach hd.classes
    · exact heach hd.enumerations
    · exact heach hd.functions
    · exact heach hd.measures
    · exact heach hd.classes
  · split at hp
    · rw [mem_singleton.1 hp]
      exact hwhole (checkSupertypeCycles_placed hd.classes)
    · cases hp
  · rcases hp with rfl | rfl | rfl | rfl | rfl | rfl | rfl
    · exact heach hd.measures
    · exact heach hd.associations
    · exact heach hd.classes
    · exact heach hd.associations
    · exact heach hd.classes
    · exact heach hd.associations
    · exact heach hd.functions
  · rcases hp with rfl | rfl | rfl | rfl | rfl | rfl | rfl | rfl | rfl | rfl | rfl | rfl
    · exact heach hd.extensions
    · exact heach hd.extensions
    · exact heach hd.mappings
    · exact heach hd.mappings
    · exact heach hd.mappings
    · exact heach hd.mappings
    · exact heach hd.connections
    · exact heach hd.connections
    · exact heach hd.runtimes
    · exact heach hd.runtimes
    · exact checkMappings_throws hd.mappings m
    · have hdistinct := (tidy_of_runs hsplit hruns).distinct
      exact (checkExtensions_placed hdistinct (stores_located hd hsplit hruns)).mono fun _ => .inl

/-- **A failure of a document with positions has a position, but for enumeration mappings
without one that mix kinds of source values.** -/
theorem failures_positioned {f : Failure} (hd : d.Located) (h : (d.build o).result = .error f)
    (hu : f.isUnsupported = false) : f.hasSpan = false ↔ d.MixedSources f := by
  constructor
  · intro hspan
    obtain ⟨pre, p, post, n, hsplit, hruns, hp⟩ := exists_failed _ _ h
    rcases pass_throws hd hsplit hruns f hp with (hu' | hspan') | hmixed
    · rw [hu] at hu'
      cases hu'
    · rw [hspan] at hspan'
      cases hspan'
    · exact hmixed
  · rintro ⟨x, -, e, -, hspan, -, rfl⟩
    exact hspan

/-- An enumeration and a mapping of it with the given values. The declarations have
positions, the parts of the mapping have none. -/
def enumerated (values : List EnumValueMappingDecl) : Document :=
  { enumerations :=
      [{ header := { package := "m", name := "E", span := { startLine := 1, endLine := 1 } }
         values := [{ value := "A" }, { value := "B" }] }]
    mappings :=
      [{ header := { package := "m", name := "M", span := { startLine := 3, endLine := 5 } }
         enumMappings := [{ enumeration := { path := "m::E" }, values }] }] }

theorem enumerated_located (values : List EnumValueMappingDecl) : (enumerated values).Located := by
  constructor
  all_goals simp [enumerated, Span.isKnown]

def unknownValue : Document := enumerated [{ enumValue := "C" }]

/-- The failure is told at the mapping. -/
theorem unknownValue_anchored : ∃ f, (unknownValue.build {}).result = .error f ∧
    f.message = "Error in 'm::M': Can't find enum value 'C' in enumeration 'm::E'" ∧ f.hasSpan = true ∧
    (f.hasSpan = false ↔ unknownValue.MixedSources f) := by
  have h : Result.failsWith (fun f => !f.isUnsupported && f.hasSpan &&
      decide (f.message = "Error in 'm::M': Can't find enum value 'C' in enumeration 'm::E'"))
      (unknownValue.build {}).result = true := by
    decide +kernel
  obtain ⟨f, hf, htest⟩ := Result.exists_of_failsWith h
  simp only [Bool.and_eq_true, Bool.not_eq_true', decide_eq_true_eq] at htest
  obtain ⟨⟨hu, hspan⟩, hmessage⟩ := htest
  exact ⟨f, hf, hmessage, hspan, failures_positioned (enumerated_located _) hf hu⟩

/-- A mapping from an integer and from a text. -/
def mixedValues : Document :=
  enumerated
    [{ enumValue := "A", sources := [source SourceValue.integerTag (.ofInt 1)] },
     { enumValue := "B", sources := [source SourceValue.stringTag (.ofString "b")] }]
where
  source (tag : String) (value : Json) : Json :=
    .object "" [("_type", .ofString tag), ("value", value)]

/-- The failure has no position, although every declaration has one. -/
theorem mixedValues_unanchored : mixedValues.Located ∧ ∃ f, (mixedValues.build {}).result = .error f ∧
    f.isUnsupported = false ∧ f.hasSpan = false := by
  have h : Result.failsWith (fun f => !f.isUnsupported && !f.hasSpan) (mixedValues.build {}).result = true := by
    decide +kernel
  obtain ⟨f, hf, htest⟩ := Result.exists_of_failsWith h
  simp only [Bool.and_eq_true, Bool.not_eq_true'] at htest
  exact ⟨enumerated_located _, f, hf, htest⟩

end Document
end ModelGraph
