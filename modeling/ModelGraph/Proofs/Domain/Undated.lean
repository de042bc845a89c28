/-
# What milestoning leaves as it is

A stored property is undated if its type declares no time dimensions. Milestoning goes over the
properties of a class and over those from associations, and in each list the undated ones stay as
they are and in their order. There is one exception: an undated property with the mark of generated
members goes as soon as some other property of its list is replaced, since the list is then put
together from the properties without the mark. Afterwards only default values are stored, each with
the first property of its name.

Key definitions: `Model.undated`, `Model.Spares`.
Key theorems: `spares_milestonedLists`, `ClassDecl.compileStep_defaults`, `Document.undated_spared`.
-/
import ModelGraph.Proofs.Domain.Milestoning

namespace ModelGraph

open Model Build Document List Bool

/-- Whether a stored property carries the mark of generated members. -/
def Property.isMarked (p : Property) : Bool :=
  p.annotations.has Library.milestoningProfile Library.generatedMember

/-- The properties whose types declare no time dimensions. -/
def Model.undated (m : Model) (ps : List Property) : List Property :=
  ps.filter fun p => m.rawTemporal p.type.raw = .none

/-- What a list `ps'` that stands for `ps` has of its undated properties. -/
structure Model.Spares (m : Model) (ps ps' : List Property) : Prop where
  /-- They stay in their order, those with the mark only if nothing is replaced, and no others come. -/
  undated : m.undated ps' = (m.undated ps).filter fun p => !(p.isMarked && ps.any m.replaces)
  /-- All of them stay, unless one with the mark stands in a list with a property that is replaced. -/
  all_iff : (m.undated ps).Sublist ps' ↔ ∀ p ∈ m.undated ps, p.isMarked = true → ∀ q ∈ ps, m.replaces q = false

/-- Stored properties with default values, each value with the first property of its name. -/
def withDefaults (vs : List (String × Expr)) (ps : List Property) : List Property :=
  vs.foldl (fun ps v => ClassDecl.setDefault v.1 v.2 ps) ps

/-- The names of declared properties with default values that are still among stored ones. -/
def defaultNames (ds : List PropertyDecl) (ps : List Property) : List String :=
  (ds.filter fun y => y.default.isSome && (ps.map (·.name)).contains y.name).map (·.name)

/-- `ps'` are the stored properties `ps` with default values of declared ones. -/
def PropertyDecl.Defaults (ds : List PropertyDecl) (ps ps' : List Property) : Prop :=
  ∃ vs, ps' = withDefaults vs ps ∧ vs.map (·.1) = defaultNames ds ps

variable {d : Document} {o : Options} {m n : Model} {ps ps' : List Property}

/-! ### Undated properties -/

theorem Model.any_replaces (m : Model) (ps : List Property) : ps.any m.replaces = !(ps.filter m.replaces).isEmpty := by
  rw [Bool.eq_iff_iff, any_eq_true, Bool.not_eq_true', isEmpty_eq_false_iff_exists_mem]
  simp only [mem_filter]

theorem Model.undated_keptProperties (m : Model) (ps : List Property) :
    m.undated (m.keptProperties ps) = (m.undated ps).filter fun p => !(p.isMarked && ps.any m.replaces) := by
  rw [any_replaces]
  unfold keptProperties
  by_cases hnone : (ps.filter m.replaces).isEmpty = true
  · rw [hnone]
    refine (filter_eq_self.2 fun p _ => ?_).symm
    rw [Bool.not_true, Bool.and_false, Bool.not_false]
  · rw [if_neg hnone, eq_false_iff.2 hnone]
    unfold undated
    rw [filter_filter, filter_filter]
    refine filter_congr fun p _ => ?_
    show (_ && (!p.isMarked && !(!p.isMarked && _))) = _
    by_cases hdated : m.rawTemporal p.type.raw = .none
    · simp [hdated]
    · simp [hdated]

theorem undated_edgePoints (m : Model) (owner : TypeRef) (ps : List Property) :
    m.undated ((datedProperties m owner ps).map (·.edgePoint)) = [] := by
  rw [datedProperties_eq, map_map]
  refine filter_eq_nil_iff.2 fun e he => ?_
  obtain ⟨p, hp, rfl⟩ := mem_map.1 he
  have hdated := (mem_filter.1 hp).2
  rw [replaces, and_eq_true, decide_eq_true_eq] at hdated
  rw [decide_eq_true_eq]
  exact hdated.2

theorem Model.Spares.of_undated
    (h : m.undated ps' = (m.undated ps).filter fun p => !(p.isMarked && ps.any m.replaces)) : m.Spares ps ps' := by
  refine ⟨h, fun hsub => ?_, fun hall => ?_⟩
  · -- The undated properties are then as many as those of them that stay.
    have hself : m.undated (m.undated ps) = m.undated ps :=
      filter_eq_self.2 fun p hp => (mem_filter.1 hp).2
    have hle : (m.undated ps).Sublist (m.undated ps') := by
      rw [← hself]
      exact hsub.filter _
    rw [h] at hle
    have hsame := filter_sublist.eq_of_length_le hle.length_le
    intro p hp hmarked q hq
    have hstays := filter_eq_self.1 hsame p hp
    rw [hmarked, Bool.true_and, Bool.not_eq_true', any_eq_false] at hstays
    exact eq_false_iff.2 (hstays q hq)
  · have hsame : m.undated ps' = m.undated ps := by
      rw [h]
      refine filter_eq_self.2 fun p hp => ?_
      rcases hmarked : p.isMarked with _ | _
      · rfl
      · rw [Bool.true_and, Bool.not_eq_true', any_eq_false]
        exact fun q hq => eq_false_iff.1 (hall p hp hmarked q hq)
    rw [← hsame]
    exact filter_sublist

/-- **Milestoning spares undated properties, but for marked ones beside one that is replaced.** -/
theorem spares_milestonedLists (m : Model) (owner : TypeRef) (new qs : List QualifiedProperty) (ps : List Property) :
    m.Spares ps (milestonedLists m owner new (ps, qs)).1 := by
  refine .of_undated ?_
  rw [← undated_keptProperties]
  unfold milestonedLists
  rw [isEmpty_datedProperties]
  rcases hnone : (ps.filter m.replaces).isEmpty with _ | _
  · have hstored : storedProperties m owner ps = _ := storedProperties_eq hnone
    rw [if_neg Bool.false_ne_true, hstored, undated, filter_append]
    have hedges := undated_edgePoints m owner ps
    unfold undated at hedges
    rw [hedges, append_nil]
    rfl
  · have hkept : m.keptProperties ps = ps := if_pos hnone
    rw [if_pos rfl, hkept]

/-! ### Default values -/

theorem map_name_setDefault (name : String) (value : Expr) (ps : List Property) :
    (ClassDecl.setDefault name value ps).map (·.name) = ps.map (·.name) := by
  have hbare := congrArg (List.map Property.name) (ClassDecl.setDefault_bare name value ps)
  rwa [map_map, map_map] at hbare

theorem map_name_withDefaults (vs : List (String × Expr)) (ps : List Property) :
    (withDefaults vs ps).map (·.name) = ps.map (·.name) := by
  induction vs generalizing ps with
  | nil => rfl
  | cons v vs ih => exact (ih _).trans (map_name_setDefault v.1 v.2 ps)

namespace PropertyDecl

variable {ds : List PropertyDecl}

theorem Defaults.skip (h : Defaults ds ps ps') {y : PropertyDecl}
    (hy : (y.default.isSome && (ps.map (·.name)).contains y.name) = false) : Defaults (ds ++ [y]) ps ps' := by
  obtain ⟨vs, hps', hnames⟩ := h
  refine ⟨vs, hps', ?_⟩
  rw [hnames, defaultNames, defaultNames, filter_append, filter_singleton, hy]
  exact congrArg (List.map _) (append_nil _).symm

theorem Defaults.store (h : Defaults ds ps ps') {y : PropertyDecl} (value : Expr)
    (hy : (y.default.isSome && (ps.map (·.name)).contains y.name) = true) :
    Defaults (ds ++ [y]) ps (ClassDecl.setDefault y.name value ps') := by
  obtain ⟨vs, rfl, hnames⟩ := h
  refine ⟨vs ++ [(y.name, value)], by simp [withDefaults], ?_⟩
  rw [map_append, hnames, defaultNames, defaultNames, filter_append, filter_singleton, hy, map_append]
  rfl

end PropertyDecl

namespace ClassDecl

variable {x : ClassDecl} {done : List PropertyDecl} {c : ClassContent}

/-- The class has the stored properties `ps` with the default values of some declared ones. -/
def Defaulting (x : ClassDecl) (ps : List Property) (done : List PropertyDecl) (n : Model) : Prop :=
  ∃ c : ClassContent, n.staged? x.header.path = some (.classType c) ∧ PropertyDecl.Defaults done ps c.properties

theorem Defaulting.noted {n' : Model} (h : x.Defaulting ps done n) (hn : n.Noted n') : x.Defaulting ps done n' := by
  unfold Defaulting
  rwa [hn.staged?]

theorem Defaulting.set {done' : List PropertyDecl} (h : x.Defaulting ps done n) (f : ClassContent → ClassContent)
    (hf : ∀ c : ClassContent, PropertyDecl.Defaults done ps c.properties → PropertyDecl.Defaults done' ps (f c).properties) :
    (do let content ← classOf x.header.path
        setClass x.header.path (f content)).Ensures n fun _ n' => x.Defaulting ps done' n' := by
  obtain ⟨c, hc, hdefaults⟩ := h
  rw [ensures_bind, ensures_classOf_staged hc, ensures_setClass]
  refine ⟨f c, ?_, hf c hdefaults⟩
  rw [staged?_setContent rfl hc, Function.update_self]

theorem compileQualified_defaults (q : QualifiedDecl) (j : Nat) (h : x.Defaulting ps done n) :
    (x.compileQualified q j).Ensures n fun _ n' => x.Defaulting ps done n' := by
  unfold compileQualified
  rw [ensures_bind, ensures_classOf]
  split
  · exact ensures_pure.2 h
  · rw [ensures_bind]
    refine ((q.compileBody_made _ _ _ _).notes n).mono fun body n₁ h₁ => ?_
    exact (h.noted h₁).set
      (fun content => { content with qualified := withBody content.qualified x.header.path j body }) fun _ hdefaults => hdefaults

theorem compileDefault_defaults (y : PropertyDecl) (h : x.Defaulting ps done n) :
    (x.compileDefault y).Ensures n fun _ n' => x.Defaulting ps (done ++ [y]) n' := by
  obtain ⟨c, hc, hdefaults⟩ := h
  obtain ⟨vs, hvs, -⟩ := id hdefaults
  have hany : (c.properties.any fun q => q.name = y.name) = (ps.map (·.name)).contains y.name := by
    rw [← map_name_withDefaults vs, hvs, Bool.eq_iff_iff, any_eq_true, contains_iff_mem, mem_map]
    simp only [decide_eq_true_eq]
  unfold compileDefault
  rw [ensures_bind, ensures_classOf_staged hc]
  split
  · rename_i hdefault
    exact ensures_pure.2 ⟨c, hc, hdefaults.skip (by rw [hdefault]; rfl)⟩
  · rename_i hdefault
    rw [ensures_ite]
    refine ⟨fun hstill => ?_, fun hgone => ensures_pure.2 ⟨c, hc, hdefaults.skip ?_⟩⟩
    · rw [ensures_bind]
      refine (notes_value _ _ _ n).mono fun value n₁ h₁ => ?_
      refine (Defaulting.noted ⟨c, hc, hdefaults⟩ h₁).set
        (fun content => { content with properties := setDefault y.name value content.properties }) fun c' hc' => ?_
      exact hc'.store value (by rw [hdefault, ← hany, hstill]; rfl)
    · rw [← hany, Bool.eq_false_iff.2 hgone, Bool.and_false]

/-- **Compiling a class stores the default values of properties that it still has.** -/
theorem compileStep_defaults (hc : m.staged? x.header.path = some (.classType c)) :
    x.compileStep.Ensures m fun _ m' => x.Defaulting c.properties x.properties m' := by
  have hstart : x.Defaulting c.properties [] m := ⟨c, hc, [], rfl, rfl⟩
  rw [compileStep_eq, compileMembers]
  simp only [bind_assoc]
  rw [ensures_bind]
  refine (ensures_forM hstart fun y _ n hn => compileQualified_defaults y.1 y.2 hn).mono fun _ n hn => ?_
  rw [ensures_bind]
  refine (ensures_forM_done (fun done n => x.Defaulting c.properties done n) x.properties hn
    fun _ y _ _ n hn => compileDefault_defaults y hn).mono fun _ n hn => ?_
  rw [ensures_bind, ensures_get, ensures_bind]
  refine ((made_mapM fun k _ => k.compile_made _ _).notes n).mono fun constraints n' hn' => ?_
  obtain ⟨c', hc', hdefaults⟩ := hn.noted hn'
  rw [ensures_bind, ensures_classOf_staged hc', ensures_bind, ensures_liftM]
  intro stage _
  rw [ensures_setClass]
  refine ⟨{ c' with constraints, stage }, ?_, hdefaults⟩
  rw [staged?_setContent rfl hc', Function.update_self]

end ClassDecl

/-! ### What a class ends with -/

/-- **What becomes of the stored properties of a class once it is milestoned.** -/
theorem Document.Course.class_defaulted (u : d.Course o m) {i : Nat} {x : ClassDecl}
    {c : ClassContent} (hx : d.classes[i]? = some x)
    (hc : u.milestoned.staged? x.header.path = some (.classType c)) :
    ∃ c', PropertyDecl.Defaults x.properties c.properties c'.properties ∧ c'.assocProperties = c.assocProperties ∧
      m.staged? x.header.path = some (.classType c') := by
  obtain ⟨n, n', hn, hrun, hafter⟩ := u.class_compiled hx hc
  obtain ⟨c₁, hc₁, hdefaults⟩ := ClassDecl.compileStep_defaults hn _ _ hrun
  obtain ⟨c₂, hsettles, -, hc₂⟩ := u.class_bodied hx hc
  have hsame : c₁ = c₂ := by
    rw [hafter, hc₁] at hc₂
    cases hc₂
    rfl
  -- Compiling associations stores bodies only.
  obtain ⟨c₃, hties, hproperties, hc₃⟩ := u.class_refilled hc₂
  refine ⟨c₃, ?_, hties.assocProperties.trans hsettles.assocProperties, ?_⟩
  · rw [hproperties, ← hsame]
    exact hdefaults
  · exact u.staged_of_tied hc₃ fun e he => by simp [Element.category?, he, within]

/-- **Milestoning touches dated properties only, but for marks.** In a model that was built, the
undated properties of a class, those declared on it and those from associations, are still in their
lists, unchanged and in their order, except for the marked ones of a list in which a property is
replaced. A list keeps all of them if and only if none of them is marked or nothing of it is
replaced. Declared properties get the default values that they declare. -/
theorem Document.undated_spared (h : (d.build o).result = .ok m) {i : Nat} {x : ClassDecl}
    (hx : d.classes[i]? = some x) :
    ∃ k b as c own, d.At o "classes.structure" i k ∧ x.Members k b ∧ d.Linked o as ∧
      m.class? x.header.path = some c ∧
      m.Spares b.properties own ∧ PropertyDecl.Defaults x.properties own c.properties ∧
      m.Spares (as.flatMap (·.propertiesAt x.header.path)) c.assocProperties := by
  obtain ⟨u⟩ := exists_course h
  obtain ⟨as, hlinks⟩ := u.exists_links
  obtain ⟨k, b, new, rs, hat, hmembers, -, -, hmilestoned⟩ := u.class_lists hlinks hx
  obtain ⟨c, hdefaults, hassociated, hc⟩ := u.class_defaulted hx hmilestoned
  refine ⟨k, b, as, c, _, hat, hmembers, hlinks.all, class?_of_staged? hc, ?_, hdefaults, ?_⟩
  · exact spares_milestonedLists m x.ref new b.qualified b.properties
  · rw [hassociated]
    exact spares_milestonedLists m x.ref rs _ _

/-- A class with an undated property that has the mark, one with a default value, and one whose class
has business dates. -/
def Document.marked : Document :=
  { classes :=
      [{ header := { package := "m", name := "A" }
         properties :=
           [{ name := "x", typeName := "String", bounds := { lower := 1, upper := some 1 }
              annotations :=
                { stereotypes := [{ profile := Library.milestoningProfile, value := Library.generatedMember }] } },
            { name := "n", typeName := "Integer", bounds := { lower := 1, upper := some 1 }
              default := some { value := .mk { tag := Node.integerTag, literals := [.ofInt 1] } [] [] [] [] } },
            { name := "b", typeName := "m::B", bounds := { lower := 1, upper := some 1 } }] },
       { header := { package := "m", name := "B" }
         annotations := { stereotypes := [{ profile := Temporal.profile, value := "businesstemporal" }] } }] }

/-- The second property stays and gets its default value, and the third is replaced. -/
theorem Document.marked_spared : ∃ m x k b as c own, (marked.build {}).result = .ok m ∧
    marked.classes[0]? = some x ∧ x.Members k b ∧ marked.Linked {} as ∧ m.class? "m::A" = some c ∧
    m.Spares b.properties own ∧ PropertyDecl.Defaults x.properties own c.properties ∧
    m.Spares (as.flatMap (·.propertiesAt "m::A")) c.assocProperties ∧
    c.properties.map (fun p => (p.name, p.default.isSome)) = [("n", true), ("bAllVersions", false)] := by
  obtain ⟨m, h, c', hc', htest⟩ : ∃ m, (marked.build {}).result = .ok m ∧ ∃ c, m.class? "m::A" = some c ∧
      c.properties.map (fun p => (p.name, p.default.isSome)) = [("n", true), ("bAllVersions", false)] := by
    decide +kernel
  obtain ⟨k, b, as, c, own, -, hmembers, hlinked, hc, hspares, hdefaults, hassociated⟩ := undated_spared (i := 0) h rfl
  obtain rfl := Option.some.inj (hc.symm.trans hc')
  exact ⟨m, _, k, b, as, c, own, h, rfl, hmembers, hlinked, hc', hspares, hdefaults, hassociated, htest⟩

/-- The first property, whose type has no time dimensions, is no longer there. -/
theorem Document.marked_dropped : ∃ m c, (marked.build {}).result = .ok m ∧ m.class? "m::A" = some c ∧
    (∃ x y, marked.classes[0]? = some x ∧ y ∈ x.properties ∧ y.name = "x" ∧ y.typeName = "String") ∧
    m.rawTemporal (.named Library.string) = .none ∧ ∀ p ∈ c.properties, p.name ≠ "x" := by
  simp only [exists_and_left]
  decide +kernel

end ModelGraph
