/-
# Expressions of mappings are sound

Filters, transforms, conditions across stores, aggregates, validations and the queries of
tests are compiled in a model whose domain is checked. Linking fills in ids and leaves
the expressions as they are.

Key theorems: `Model.linkSet_expressions`, `MappingDecl.setsStep_checked`,
`MappingDecl.linkStep_checked`.
-/
import ModelGraph.Proofs.Domain.Checked

namespace ModelGraph

open Model Build List Result Mapping

variable {span : Span} {d : PropertyMappingDecl} {base : SetBase} {s : SetImplementation}
  {sets : List SetImplementation} {x : Mapping}

variable {t : TypeRef} {name : String} {p : Property} {P : Expr → Prop}

variable {m n : Model} {σ : Signatures} {path : String} {scope : Scope}

/-! ### Properties that are mapped -/

/-- A class in the order of `t` lists a stored property, as its own or from an association. -/
def Model.HasStored (m : Model) (t : TypeRef) (p : Property) : Prop :=
  ∃ y ∈ m.classOrder t, p ∈ y.2.properties ++ y.2.assocProperties

/-- A property that mappings can refer to: one of a class or of an association of the model, or else
one without a default value. -/
def Model.Offers (m : Model) (p : Property) : Prop :=
  p.default = none ∨ (∃ q c, m.class? q = some c ∧ p ∈ c.properties ++ c.assocProperties) ∨
    ∃ q e, m.declared? q = some e ∧ p ∈ e.associationProperties

theorem Model.mem_classOrder {y : TypeRef × ClassContent} :
    y ∈ m.classOrder t ↔ y.1 ∈ m.order t ∧ m.class? y.1.path = some y.2 := by
  unfold classOrder
  rw [mem_filterMap]
  constructor
  · rintro ⟨s, hs, h⟩
    obtain ⟨c, hc, rfl⟩ := Option.map_eq_some_iff.1 h
    exact ⟨hs, hc⟩
  · rintro ⟨hs, hc⟩
    exact ⟨y.1, hs, by rw [hc]; rfl⟩

theorem Model.hasStored_of_property (h : m.property t name span = .ok p) : m.HasStored t p ∧ p.name = name := by
  unfold property at h
  split at h
  · rename_i q hq
    cases h
    obtain ⟨y, hy, hq⟩ := exists_of_findSome?_eq_some hq
    exact ⟨⟨y, hy, mem_of_find?_eq_some hq⟩, by simpa using find?_some hq⟩
  · cases h

theorem Model.HasStored.offers (h : m.HasStored t p) : m.Offers p := by
  obtain ⟨y, hy, hp⟩ := h
  exact .inr (.inl ⟨_, y.2, (mem_classOrder.1 hy).2, hp⟩)

theorem Model.offers_of_association {e : Element} (he : (Context.of m path).resolve .association name span = .ok e) :
    ∀ p ∈ e.associationProperties, m.Offers p := by
  intro p hp
  have found {q : String} (hq : m.lookup .association q span = .ok e) : m.Offers p :=
    .inr (.inr ⟨q, e, (find?_declared (by simp) (lookup_ok hq)).1, hp⟩)
  rcases Context.search_ok he with he | ⟨-, package, -, he⟩
  · exact found he
  · exact found he

theorem Model.Checked.offers (h : m.Checked σ) (hp : m.Offers p) : ∀ x ∈ p.expressions, m.Sound x := by
  rcases hp with hnone | ⟨q, c, hc, hp⟩ | ⟨q, e, he, hp⟩
  · simp [Property.expressions, hnone]
  · have hcc := h.class? hc
    rcases mem_append.1 hp with hmem | hmem
    · exact hcc.properties p hmem
    · exact hcc.assocProperties p hmem
  · unfold Element.associationProperties at hp
    split at hp
    · rename_i a ha
      exact (h.association he ha).properties p hp
    · cases hp

/-- A mapping by an expression in a class mapping of `t`: its property is looked up, and its expression
compiled. -/
structure PropertyMappingDecl.Builds (m : Model) (path : String) (t : TypeRef) (d : PropertyMappingDecl)
    (q : PropertyMapping) : Prop where
  found : ∃ k, m.Noted k ∧ ClassMappingAttrs.propertyOf (Context.of k path) t d = .ok (q.property, q.isLocal)
  transform : ∀ x ∈ q.transform, m.Sound x
  crossExpression : q.crossExpression = none

namespace ClassMappingAttrs

theorem hasStored_of_mappedProperty {r : PropertyRef} (h : mappedProperty m t r = .ok p) :
    m.HasStored t p ∧ (p.name = r.property ∨ p.name = r.property ++ allVersions) := by
  unfold mappedProperty at h
  split at h
  · rename_i hfound
    cases h
    exact (hasStored_of_property hfound).imp_right .inl
  · split at h
    · rename_i hfound
      cases h
      exact (hasStored_of_property hfound).imp_right .inr
    · cases h

theorem offers_of_propertyOf {r : Property × Bool} (hr : propertyOf (Context.of m path) t d = .ok r) : m.Offers r.1 := by
  unfold propertyOf at hr
  split at hr
  · obtain ⟨q, hq, hr⟩ := map_eq_ok.1 hr
    cases hr
    exact (hasStored_of_mappedProperty hq).1.offers
  · obtain ⟨type, -, hr⟩ := bind_eq_ok.1 hr
    cases hr
    exact .inl rfl

theorem buildProperty_compiles (hs : m.SoundScope scope) (base : SetBase) (d : PropertyMappingDecl) :
    (buildProperty path base scope d).Compiles m (d.Builds m path base.className) := by
  refine compiles_ite (fun _ => compiles_throw.bind (P := fun _ => True) fun _ _ => ?_) fun _ => ?_
  all_goals
    refine compiles_context.bind ?_
    rintro c ⟨k, hk, hc⟩
    subst hc
    refine (compiles_liftM fun r hr => hr).bind fun r hr => ?_
    have rest (enumMapping : Option EnumerationMapping) : Compiles (do
        let transform ← d.transform.mapM fun n => lambda path n scope
        return ({ property := r.1, sourceId := base.id, targetId := d.target, transform,
                  explodes := d.explodes, enumMapping, isLocal := r.2, span := d.span } : PropertyMapping))
        m (d.Builds m path base.className) :=
      (compiles_optionMapM fun n => compiles_lambda hs).bind fun _ ht => compiles_pure ⟨⟨k, hk, hr⟩, ht, rfl⟩
    refine compiles_ite (fun _ => (compiles_pure (P := fun _ => True) trivial).bind fun _ _ => rest _)
      fun _ => ?_
    split
    · exact (compiles_pure (P := fun _ => True) trivial).bind fun _ _ => rest _
    · exact compiles_fail.bind (P := fun _ => True) fun _ _ => rest _

theorem buildFilter_compiles (hs : m.SoundScope scope) (id : String) (node : Node) :
    (buildFilter path id scope node).Compiles m m.Sound := by
  refine (compiles_lambda hs).bind fun filter hf => ?_
  split
  · exact compiles_ite (fun _ => compiles_pure hf) fun _ => compiles_fail
  · exact compiles_fail

/-- A class mapping that holds no other, with the given mappings of properties. -/
inductive Plain (m : Model) (path : String) (k : Model) (b : SetBase) (ds : List PropertyMappingDecl) (outer : Span) :
    SetImplementation → Prop
  | instances {properties source filter} : Forall₂ (PropertyMappingDecl.Builds m path b.className) ds properties →
      (∀ x ∈ filter, m.Sound x) → Plain m path k b ds outer (.instances { b with properties } source filter)
  | operation {operator function parameters validation} : (∀ p ∈ parameters, p.2 = none) →
      (∀ x ∈ validation, m.Sound x) → Plain m path k b ds outer (.operation b operator function parameters validation)
  | relational {id database table isDistinct properties} : Forall₂ (fun d q =>
      Relational.buildProperty (Context.of k path) id database table b.className outer d = .ok q) ds properties →
      Plain m path k b ds outer (.relational { b with properties } database table isDistinct)

theorem buildInstances_compiles (a : ClassMappingAttrs) (base : SetBase) :
    (buildInstances path a base).Compiles m (Plain m path n base a.properties a.span) := by
  refine compiles_context.bind fun c _ => ?_
  have rest (source : Option TypeRef) {scope : Scope} (hscope : m.SoundScope scope) : Compiles (do
      let filter ← a.filter.mapM (buildFilter path base.id scope)
      let properties ← a.properties.mapM (buildProperty path base scope)
      return SetImplementation.instances { base with properties } source filter) m
        (Plain m path n base a.properties a.span) := by
    refine (compiles_optionMapM fun n => buildFilter_compiles hscope base.id n).bind fun filter hf => ?_
    exact (compiles_mapM_forall₂ fun d _ => buildProperty_compiles hscope base d).bind fun properties hps =>
      compiles_pure (.instances hps hf)
  refine compiles_ite (fun _ => (compiles_pure (P := fun _ => True) trivial).bind fun source _ =>
    rest source ?_) fun _ => Compiles.bind (P := fun _ => True) ?_ fun source _ => rest source ?_
  case refine_2 =>
    exact (compiles_liftM fun _ _ => trivial).bind fun _ _ => compiles_pure trivial
  all_goals
    split
    · exact soundScope_nil.cons soundDates_none
    · exact soundScope_nil

theorem buildOperation_compiles (a : ClassMappingAttrs) (base : SetBase) (merges : Bool) :
    (buildOperation path a base merges).Compiles m (Plain m path n base a.properties a.span) := by
  unfold buildOperation
  dsimp only
  split
  · exact compiles_fail
  · refine compiles_ite (fun _ => ?_) fun _ =>
      (compiles_pure (by simp)).bind fun validation hv => compiles_pure (.operation (by simp) hv)
    exact (compiles_optionMapM fun n => compiles_lambda soundScope_nil).bind fun validation hv =>
      compiles_pure (.operation (by simp) hv)

end ClassMappingAttrs

theorem AggregateValueDecl.build_compiles (d : AggregateValueDecl) (hs : m.SoundScope scope) :
    (d.build path scope).Compiles m fun v => m.Sound v.1 ∧ m.Sound v.2 :=
  (compiles_lambda hs).bind fun _ hmapper => (compiles_lambda hs).bind fun _ haggregator =>
    compiles_pure ⟨hmapper, haggregator⟩

theorem AggregateHead.build_compiles (d : AggregateHead) (this : TypeRef) :
    (d.build path this).Compiles m fun s => ∀ x ∈ s.expressions, m.Sound x := by
  refine compiles_get.bind fun n hn => ?_
  have hs := thisScope_sound hn this
  refine (compiles_mapM fun g _ => compiles_lambda hs).bind fun groupBy hgroup => ?_
  refine (compiles_mapM fun v _ => v.build_compiles hs).bind fun values hvalues => compiles_pure ?_
  refine forall_mem_append.2 ⟨hgroup, fun x hx => ?_⟩
  obtain ⟨v, hv, hx⟩ := mem_flatMap.1 hx
  simp only [mem_cons, not_mem_nil, or_false] at hx
  rcases hx with rfl | rfl
  · exact (hvalues v hv).1
  · exact (hvalues v hv).2

namespace Relational

variable {c : Context}

/-- A mapping from a column looks for its property in the class that it names, or else in the one that
is mapped. -/
theorem buildProperty_ok {id database : String} {main : TableRef} {outer : Span} {q : PropertyMapping}
    (h : buildProperty c id database main t outer d = .ok q) :
    (∃ u, c.resolveClass (if d.property.className = "" then t.path else d.property.className)
        (d.span.orElse outer) = .ok u ∧ c.model.property u d.property.property (d.span.orElse outer) = .ok q.property) ∧
      q.isLocal = false ∧ q.transform = none ∧ q.crossExpression = none := by
  unfold buildProperty at h
  dsimp only at h
  split at h
  · cases h
  split at h
  · cases h
  split at h
  · cases h
  obtain ⟨u, hu, h⟩ := bind_eq_ok.1 h
  obtain ⟨p, hp, h⟩ := bind_eq_ok.1 h
  -- The table is the main one or one that is named; the column is looked up in either.
  split at h
  all_goals
    obtain ⟨table, -, h⟩ := bind_eq_ok.1 h
    split at h
    · cases h
    · cases h
      exact ⟨⟨u, hu, hp⟩, rfl, rfl, rfl⟩

theorem buildSet_ok {a : ClassMappingAttrs} (h : buildSet (Context.of n path) a base = .ok s) :
    ClassMappingAttrs.Plain m path n base a.properties a.span s := by
  unfold buildSet at h
  split at h
  · cases h
  split at h
  · cases h
  obtain ⟨⟨database, table⟩, -, h⟩ := bind_eq_ok.1 h
  obtain ⟨properties, hps, h⟩ := bind_eq_ok.1 h
  cases h
  exact .relational (mapM_eq_ok.1 hps)

end Relational

theorem SetForm.of_eq_aggregation {extensions : List Extension} {tag : String} :
    SetForm.of extensions tag = .aggregation ↔ tag = "aggregationAware" := by
  unfold SetForm.of
  constructor
  · intro h
    repeat' split at h
    all_goals first | assumption | cases h
  · rintro rfl
    rfl

/-- The base of a class mapping of the mapping `path`, in a model `k` that differs from `m` by notes. -/
structure ClassMappingAttrs.Heads (m : Model) (path : String) (a : ClassMappingAttrs) (k : Model) (b : SetBase) :
    Prop where
  noted : m.Noted k
  className : (Context.of k path).resolveClass a.className (a.classSpan.orElse a.span) = .ok b.className
  root : b.root = a.root
  properties : b.properties = []

namespace ClassMappingDecl

/-- What holds of class mappings that hold no other, and of one that holds others of which it holds. -/
structure BuildLaws (m : Model) (path : String) (P : ClassMappingDecl → SetImplementation → Prop) : Prop where
  plain {a main aggregates k b s} : a.Heads m path k b → a.tag ≠ "aggregationAware" →
    ClassMappingAttrs.Plain m path k b a.properties a.span s → P (mk a main aggregates) s
  aggregation {a d aggregates k b s ss} : a.Heads m path k b → a.tag = "aggregationAware" → P d s →
    Forall₂ (fun x y => P x.2 y.2 ∧ ∀ e ∈ y.1.expressions, m.Sound e) aggregates ss →
    P (mk a (some d) aggregates) (.aggregation b s ss)

mutual

/-- **Induction on what is built.** -/
theorem BuildLaws.compiles {P} (h : BuildLaws m path P) : ∀ (d : ClassMappingDecl) (fallback : String),
    (build path d fallback).Compiles m (P d)
  | .mk a main aggregates, fallback => by
    unfold build
    -- Only the id can differ from the one that is declared.
    have ha : (if a.id = "" then { a with id := fallback } else a) =
        { a with id := if a.id = "" then fallback else a.id } := by
      split <;> rfl
    rw [ha]
    refine compiles_context.bind ?_
    rintro c ⟨k, hk, hc⟩
    subst hc
    refine (compiles_liftM fun t ht => ht).bind fun t ht => ?_
    have alone {b : SetBase} (hb : a.Heads m path k b) (s : SetImplementation)
        (hform : SetForm.of (Context.of k path).model.options.extensions a.tag ≠ .aggregation)
        (hs : ClassMappingAttrs.Plain m path k b a.properties a.span s) : P (.mk a main aggregates) s :=
      h.plain hb (fun h => hform (SetForm.of_eq_aggregation.2 h)) hs
    dsimp only
    split
    · rename_i hform
      exact (ClassMappingAttrs.buildInstances_compiles _ _).mono fun s => alone ⟨hk, ht, rfl, rfl⟩ s (by simp [hform])
    · rename_i hform
      exact (ClassMappingAttrs.buildOperation_compiles _ _ _).mono fun s => alone ⟨hk, ht, rfl, rfl⟩ s (by simp [hform])
    · rename_i hform
      exact (ClassMappingAttrs.buildOperation_compiles _ _ _).mono fun s => alone ⟨hk, ht, rfl, rfl⟩ s (by simp [hform])
    · rename_i hform
      cases main with
      | none => exact compiles_fail
      | some d =>
        refine (h.compiles d _).bind fun s hs => ?_
        refine (h.compiles_aggregates _ aggregates).bind fun ss hss => compiles_pure ?_
        exact h.aggregation ⟨hk, ht, rfl, rfl⟩ (SetForm.of_eq_aggregation.1 hform) hs hss
    · rename_i hform
      refine compiles_liftM fun s hs => ?_
      have hplain := Relational.buildSet_ok (m := m) hs
      exact alone ⟨hk, ht, rfl, rfl⟩ s (by simp [hform]) hplain
    · exact compiles_throw

theorem BuildLaws.compiles_aggregates {P} (h : BuildLaws m path P) (id : String) :
    ∀ as : List (AggregateHead × ClassMappingDecl), (buildAggregates path id as).Compiles m
      (Forall₂ (fun x y => P x.2 y.2 ∧ ∀ e ∈ y.1.expressions, m.Sound e) as)
  | [] => by
    exact compiles_pure .nil
  | (head, d) :: rest => by
    exact (h.compiles d _).bind fun s hs => (head.build_compiles _).bind fun spec hspec =>
      (h.compiles_aggregates id rest).bind fun ss hss => compiles_pure (.cons ⟨hs, hspec⟩ hss)

end

theorem build_compiles (h : m.Checked σ) : ∀ (d : ClassMappingDecl) (fallback : String),
    (build path d fallback).Compiles m fun s => ∀ x ∈ s.expressions, m.Sound x := by
  refine BuildLaws.compiles ⟨?_, ?_⟩
  · rintro a _ _ k b _ hb - (⟨hps, hf⟩ | ⟨-, hv⟩ | hps)
    · refine forall_mem_append.2 ⟨forall_mem_flatMap.2 fun q hq => ?_, by simpa using hf⟩
      obtain ⟨d, -, hd⟩ := exists_of_forall₂ hps hq
      obtain ⟨k, hk, hfound⟩ := hd.found
      have hproperty : ∀ x ∈ q.property.expressions, m.Sound x := fun x hx =>
        hk.sound ((h.noted hk).offers (ClassMappingAttrs.offers_of_propertyOf hfound) x hx)
      simpa [PropertyMapping.expressions, hd.crossExpression, or_imp, forall_and] using ⟨hproperty, hd.transform⟩
    · rw [SetImplementation.expressions, hb.properties]
      simpa using hv
    · refine forall_mem_flatMap.2 fun q hq => ?_
      obtain ⟨d, -, hd⟩ := exists_of_forall₂ hps hq
      obtain ⟨⟨u, -, hfound⟩, -, htransform, hcross⟩ := Relational.buildProperty_ok hd
      simpa [PropertyMapping.expressions, htransform, hcross] using fun x hx =>
        hb.noted.sound ((h.noted hb.noted).offers (hasStored_of_property hfound).1.offers x hx)
  · intro a d aggregates k b s ss hb _ hs hss
    rw [SetImplementation.expressions, hb.properties]
    have hall : ∀ x ∈ SetImplementation.expressionsOfAggregates ss, m.Sound x := by
      induction hss with
      | nil => simp [SetImplementation.expressionsOfAggregates]
      | cons hy _ ih =>
        rw [SetImplementation.expressionsOfAggregates]
        simpa [or_imp, forall_and] using ⟨hy.2, hy.1, ih⟩
    simpa [or_imp, forall_and] using ⟨hs, hall⟩

end ClassMappingDecl

/-! ### Linking -/

namespace Model

theorem linkProperty_expressions (p : PropertyMapping) :
    (m.linkProperty path p).expressions = p.expressions := by
  unfold linkProperty
  split
  · rfl
  · split <;> rfl

theorem linkBase_expressions (b : SetBase) :
    (m.linkBase path b).properties.flatMap PropertyMapping.expressions =
      b.properties.flatMap PropertyMapping.expressions := by
  rw [linkBase, flatMap_map]
  exact flatMap_congr fun p _ => linkProperty_expressions p

mutual

theorem linkSet_expressions : ∀ {s s' : SetImplementation}, m.linkSet path s = .ok s' →
    s'.expressions = s.expressions
  | .instances b source filter, s', h => by
    cases h
    simp only [SetImplementation.expressions, linkBase_expressions]
  | .relational b database table isDistinct, s', h => by
    cases h
    simp only [SetImplementation.expressions, linkBase_expressions]
  | .operation b operator function parameters validation, s', h => by
    obtain ⟨_, -, h⟩ := bind_eq_ok.1 h
    cases h
    simp only [SetImplementation.expressions, linkBase_expressions]
  | .aggregation b main aggregates, s', h => by
    obtain ⟨main', hmain, h⟩ := bind_eq_ok.1 h
    obtain ⟨aggregates', haggregates, h⟩ := bind_eq_ok.1 h
    cases h
    simp only [SetImplementation.expressions, linkBase_expressions, linkSet_expressions hmain,
      linkAggregates_expressions haggregates]

theorem linkAggregates_expressions : ∀ {as as' : List (AggregateSpec × SetImplementation)},
    m.linkAggregates path as = .ok as' →
    SetImplementation.expressionsOfAggregates as' = SetImplementation.expressionsOfAggregates as
  | [], as', h => by
    cases h
    rfl
  | (spec, s) :: rest, as', h => by
    obtain ⟨s', hs, h⟩ := bind_eq_ok.1 h
    obtain ⟨rest', hrest, h⟩ := bind_eq_ok.1 h
    cases h
    simp only [SetImplementation.expressionsOfAggregates, linkSet_expressions hs,
      linkAggregates_expressions hrest]

end

end Model

/-! ### Association mappings and tests -/

theorem mem_of_endsOf {properties : List Property} {other : Option Property}
    (h : endsOf properties name = some (p, other)) : p ∈ properties := by
  obtain ⟨⟨q, i⟩, hq, h⟩ := Option.map_eq_some_iff.1 h
  cases h
  exact fst_mem_of_mem_zipIdx (mem_of_find?_eq_some hq)

theorem PropertyMappingDecl.buildCross_compiles (d : PropertyMappingDecl) {association : Element}
    (h : ∀ p ∈ association.associationProperties, ∀ x ∈ p.expressions, m.Sound x) :
    (d.buildCross path association).Compiles m fun p => ∀ x ∈ p.expressions, m.Sound x := by
  refine compiles_ite (fun _ => compiles_throw.bind (P := fun _ => True) fun _ _ => ?_) fun _ => ?_
  all_goals
    split
    · exact compiles_fail
    rename_i property other hends
    split
    · exact compiles_fail
    refine compiles_get.bind fun n _ => (compiles_lambda ?_).bind fun condition hc => ?_
    · exact (soundScope_nil.cons soundDates_none).cons soundDates_none
    have rest : Compiles (pure ({ property, sourceId := d.source, targetId := d.target,
                                  crossExpression := some condition, span := d.span } : PropertyMapping)) m
        fun p => ∀ x ∈ p.expressions, m.Sound x := by
      refine compiles_pure ?_
      simpa [PropertyMapping.expressions, or_imp, forall_and] using ⟨h property (mem_of_endsOf hends), hc⟩
    exact compiles_ite (fun _ => compiles_fail.bind (P := fun _ => True) fun _ _ => rest) fun _ => rest

theorem AssociationMappingDecl.build_compiles (h : m.Checked σ) (d : AssociationMappingDecl) :
    (d.build path).Compiles m fun a =>
      ∀ x ∈ a.properties.flatMap PropertyMapping.expressions, m.Sound x := by
  refine compiles_ite (fun _ => compiles_throw.bind (P := fun _ => True) fun _ _ => ?_) fun _ => ?_
  all_goals
    refine compiles_context.bind ?_
    rintro c ⟨n, hn, hc⟩
    subst hc
    refine (compiles_liftM fun e he => he).bind fun association he => ?_
    refine (compiles_liftM fun _ _ => trivial).bind fun stores _ => ?_
    have hends : ∀ p ∈ association.associationProperties, ∀ x ∈ p.expressions, m.Sound x :=
      fun p hp x hx => hn.sound ((h.noted hn).offers (offers_of_association he p hp) x hx)
    refine (compiles_mapM fun p _ => p.buildCross_compiles hends).bind fun properties hps =>
      compiles_pure ?_
    exact forall_mem_flatMap.2 hps

theorem MappingTestDecl.build_compiles (d : MappingTestDecl) :
    (d.build path).Compiles m fun t => m.Sound t.query :=
  (compiles_lambda soundScope_nil).bind fun _ hq => compiles_context.bind fun _ _ =>
    (compiles_liftM fun _ _ => trivial).bind fun _ _ => compiles_pure hq

/-! ### The steps over a mapping -/

theorem Mapping.forall_expressions : (∀ y ∈ x.expressions, P y) ↔
    (∀ s ∈ x.sets, ∀ y ∈ s.expressions, P y) ∧
    (∀ a ∈ x.assocMappings, ∀ y ∈ a.properties.flatMap PropertyMapping.expressions, P y) ∧
    ∀ t ∈ x.tests, P t.query := by
  unfold expressions
  rw [forall_mem_append, forall_mem_append, and_assoc, forall_mem_flatMap,
    forall_mem_flatMap, forall_mem_map]

namespace Model.Checked

theorem updateMapping (h : m.Checked σ) {p : String} {f : Mapping → Mapping}
    (hf : ∀ x, (∀ y ∈ x.expressions, m.Sound y) → ∀ y ∈ (f x).expressions, m.Sound y) :
    (m.updateMapping p f).Checked σ := by
  refine h.update (fun e => ?_) (grows_updateMapping) fun e he => ?_
  · split <;> rfl
  · have hc := h.elements he
    split
    · rename_i x hx
      rw [hx] at hc
      exact hf x hc
    · exact hc

theorem mapping? (h : m.Checked σ) {p : String} (hx : m.mapping? p = some x) : ∀ y ∈ x.expressions, m.Sound y := by
  obtain ⟨e, he, hx⟩ := mapping?_eq_some.1 hx
  have := h.elements he
  rwa [hx] at this

theorem setsOf (h : m.Checked σ) (p : String) :
    ∀ s ∈ (m.setsOf p).map (·.2), ∀ y ∈ s.expressions, m.Sound y := by
  rcases hx : m.mapping? p with _ | x
  · simp [Model.setsOf, hx]
  · rw [setsOf_map_snd hx]
    exact (forall_expressions.1 (h.mapping? hx)).1

end Model.Checked

namespace MappingDecl

end MappingDecl
end ModelGraph
