/-
# What milestoning makes of a class

A property is replaced if its type is a class that declares time dimensions, unless the property
carries the mark of generated members. In its place stand an edge point among the stored
properties, with any number of versions, and overloads among the derived ones: by dates, by range
if there is one date, and without arguments if the owner is dated alike. What a class has at the
end of a build is told here by what it was built with, for its own members and for those from
associations.

Key definitions: `Model.replaces`, `Property.EdgeOf`.
Key theorems: `milestones_replace`, `Model.Milestones.settles`, `Document.milestoning_exact`.
-/
import ModelGraph.Proofs.Build.Course

namespace ModelGraph

open Model Build Document List MemberLists Bool DatedProperty Library

variable {p : Property} {qs : List QualifiedProperty} {K : Option Category → Prop} {target : Temporal} {e : Element}
  {as : List AssociationContent}

def Model.replaces (m : Model) (p : Property) : Bool :=
  !p.annotations.has Library.milestoningProfile Library.generatedMember && m.rawTemporal p.type.raw ≠ .none

/-- The properties that stay in a list which milestoning goes over. Marked ones go if any is replaced. -/
def Model.keptProperties (m : Model) (ps : List Property) : List Property :=
  if (ps.filter m.replaces).isEmpty then ps
  else ps.filter fun p =>
    !p.annotations.has Library.milestoningProfile Library.generatedMember && !m.replaces p

/-- The edge point of a property: all its versions, as many as there are. -/
structure Property.EdgeOf (p e : Property) : Prop where
  name : e.name = p.name ++ "AllVersions"
  owner : e.owner = p.owner
  type : e.type = p.type
  multiplicity : e.multiplicity = { lower := p.multiplicity.lower, upper := none }
  marked : e.annotations.has Library.milestoningProfile Library.generatedMember = true

/-- The names of the derived properties that stand for one of a class dated by `target`, with the
names of the dates that they take, where the owner is dated by `source`. -/
def Temporal.overloads (source target : Temporal) (name : String) : List (String × List String) :=
  (name, target.dateNames) ::
    ((if target = .both then [] else [(name ++ "AllVersionsInRange", ["start", "end"])]) ++
      if source = target ∨ source = .both then [(name, [])] else [])

/-- An overload of a property, by its name and the names of its dates. -/
structure QualifiedProperty.OverloadOf (owner : TypeRef) (p : Property) (s : String × List String)
    (q : QualifiedProperty) : Prop where
  name : q.name = s.1
  parameters : q.parameters = .ofType "this" owner .one :: s.2.map fun n => .ofType n Library.date .one
  owner : q.owner = p.owner
  type : q.type = p.type
  multiplicity : q.multiplicity = p.multiplicity
  marked : q.isGenerated = true
  generated : q.ordinal = none
  body : ∃ e, q.body = [e]

/-- A class `owner` was built with the stored properties `ps` and the derived properties `qs`, and
has `ps'` and `qs'` for them in the end. -/
structure Model.Milestones (m : Model) (owner : TypeRef) (ps : List Property) (qs : List QualifiedProperty)
    (ps' : List Property) (qs' : List QualifiedProperty) : Prop where
  /-- No property is left that would be replaced. -/
  replaced : ∀ p ∈ ps', m.replaces p = false
  /-- Edge points stand last, in the order of what they replace. -/
  stored : ∃ kept edges, ps' = kept ++ edges ∧ kept.map Property.bare = (m.keptProperties ps).map Property.bare ∧
    Forall₂ Property.EdgeOf (ps.filter m.replaces) edges
  /-- Overloads stand behind what was declared, in the order of what they stand for. -/
  derived : ∃ declared groups, qs' = declared ++ groups.flatten ∧ Forall₂ Refilled qs declared ∧
    Forall₂ (fun p group => Forall₂ (QualifiedProperty.OverloadOf owner p)
      (Temporal.overloads (m.declaredTemporal owner) (m.rawTemporal p.type.raw) p.name) group)
      (ps.filter m.replaces) groups

/-- Originals that are known, with those behind that have other names. -/
def withOriginals (known ps : List Property) : List Property :=
  known ++ ps.filter fun p => !known.any fun k => k.name = p.name

variable {d : Document} {o : Options} {m n : Model} {owner : TypeRef} {ps : List Property} {c : ClassContent}

/-! ### What stands for a property -/

theorem DatedProperty.edgePoint_edgeOf (owner : TypeRef) (source target : Temporal) (p : Property) :
    p.EdgeOf (DatedProperty.of owner source target p).edgePoint where
  name := rfl
  owner := rfl
  type := rfl
  multiplicity := rfl
  marked := by
    show List.contains (_ ++ [_]) _ = true
    rw [contains_append]
    exact or_eq_true_iff.2 (.inr (by decide))

/-- **The overloads of a property, one for each name with dates.** -/
theorem DatedProperty.derived_eq (owner : TypeRef) (source : Temporal) (ht : target ≠ .none)
    (p : Property) : (DatedProperty.of owner source target p).derived =
      (Temporal.overloads source target p.name).map fun s =>
        { name := s.1, owner := p.owner, type := p.type, multiplicity := p.multiplicity, span := p.span
          parameters := .ofType "this" owner .one :: s.2.map fun n => .ofType n date .one
          annotations := { p.annotations with
            stereotypes := p.annotations.stereotypes ++ [generatedMark generatedMember] } } := by
  cases target with
  | none => exact absurd rfl ht
  | business => cases source <;> rfl
  | processing => cases source <;> rfl
  | both => cases source <;> rfl

theorem DatedProperty.overloads_of {source : Temporal} (ht : target ≠ .none)
    (h : Forall₂ Bodied (DatedProperty.of owner source target p).derived qs) :
    Forall₂ (QualifiedProperty.OverloadOf owner p) (Temporal.overloads source target p.name) qs := by
  rw [derived_eq owner source ht p, forall₂_map_left_iff] at h
  refine h.imp ?_
  rintro s q ⟨e, rfl⟩
  refine ⟨rfl, rfl, rfl, rfl, rfl, ?_, rfl, e, rfl⟩
  exact (edgePoint_edgeOf owner source target p).marked

/-! ### What stands for a list -/

theorem replaced_eq (m : Model) (ps : List Property) :
    (countedProperties ps).filter (fun p => m.rawTemporal p.type.raw != .none) = ps.filter m.replaces := by
  unfold countedProperties
  rw [filter_filter]
  refine filter_congr fun p _ => ?_
  rw [replaces, Bool.and_comm]
  cases m.rawTemporal p.type.raw <;> rfl

theorem datedProperties_eq (m : Model) (owner : TypeRef) (ps : List Property) : datedProperties m owner ps =
    (ps.filter m.replaces).map fun p =>
      DatedProperty.of owner (m.declaredTemporal owner) (m.rawTemporal p.type.raw) p := by
  unfold datedProperties
  rw [replaced_eq]

theorem storedProperties_eq (h : (ps.filter m.replaces).isEmpty = false) : storedProperties m owner ps =
    m.keptProperties ps ++ (datedProperties m owner ps).map (·.edgePoint) := by
  unfold storedProperties keptProperties countedProperties
  rw [if_neg (by rw [h]; exact false_ne_true), filter_filter]
  refine congrArg (· ++ _) (filter_congr fun p _ => ?_)
  unfold replaces
  cases p.annotations.has milestoningProfile generatedMember <;>
    cases m.rawTemporal p.type.raw <;> rfl

theorem replaces_keptProperties (m : Model) (ps : List Property) : ∀ p ∈ m.keptProperties ps, m.replaces p = false := by
  intro p hp
  unfold keptProperties at hp
  split at hp
  · rename_i hnone
    rw [eq_false_iff]
    exact filter_eq_nil_iff.1 (isEmpty_iff.1 hnone) p hp
  · have hkept := (mem_filter.1 hp).2
    rw [and_eq_true, not_eq_true', not_eq_true'] at hkept
    exact hkept.2

theorem exists_of_forall₂_append {α β : Type} {R : α → β → Prop} : ∀ {as as' : List α} {bs : List β},
    Forall₂ R (as ++ as') bs → ∃ cs cs', bs = cs ++ cs' ∧ Forall₂ R as cs ∧ Forall₂ R as' cs'
  | [], _, bs, h => ⟨[], bs, rfl, .nil, h⟩
  | a :: as, as', bs, h => by
    obtain ⟨b, rest, hr, hrest, rfl⟩ := forall₂_cons_left_iff.1 h
    obtain ⟨cs, cs', rfl, hcs, hcs'⟩ := exists_of_forall₂_append hrest
    exact ⟨b :: cs, cs', rfl, .cons hr hcs, hcs'⟩

theorem exists_groups {α β γ : Type} {R : β → γ → Prop} {f : α → List β} : ∀ {as : List α} {bs : List γ},
    Forall₂ R (as.flatMap f) bs →
      ∃ groups, bs = groups.flatten ∧ Forall₂ (fun a group => Forall₂ R (f a) group) as groups
  | [], bs, h => ⟨[], forall₂_nil_left_iff.1 h, .nil⟩
  | a :: as, bs, h => by
    obtain ⟨group, rest, rfl, hgroup, hrest⟩ := exists_of_forall₂_append h
    obtain ⟨groups, rfl, hgroups⟩ := exists_groups hrest
    exact ⟨group :: groups, rfl, .cons hgroup hgroups⟩

theorem isEmpty_datedProperties (m : Model) (owner : TypeRef) (ps : List Property) :
    (datedProperties m owner ps).isEmpty = (ps.filter m.replaces).isEmpty := by
  rw [datedProperties_eq, isEmpty_map]

/-- The stored and the derived properties that milestoning leaves. -/
def milestonedLists (m : Model) (owner : TypeRef) (new : List QualifiedProperty)
    (l : List Property × List QualifiedProperty) : List Property × List QualifiedProperty :=
  if (datedProperties m owner l.1).isEmpty then l else (storedProperties m owner l.1, l.2 ++ new)

/-- The lists that milestoning leaves are what it should make of them. -/
theorem milestones_replace {new : List QualifiedProperty}
    (hnew : Forall₂ Bodied ((datedProperties m owner ps).flatMap (·.derived)) new) :
    m.Milestones owner ps qs (milestonedLists m owner new (ps, qs)).1 (milestonedLists m owner new (ps, qs)).2 := by
  have hedges : Forall₂ Property.EdgeOf (ps.filter m.replaces)
      ((datedProperties m owner ps).map (·.edgePoint)) := by
    rw [datedProperties_eq, map_map, forall₂_map_right_iff]
    exact forall₂_same.2 fun p _ => edgePoint_edgeOf ..
  have hderived : ∃ groups, new = groups.flatten ∧ Forall₂ (fun p group =>
      Forall₂ (QualifiedProperty.OverloadOf owner p)
        (Temporal.overloads (m.declaredTemporal owner) (m.rawTemporal p.type.raw) p.name) group)
      (ps.filter m.replaces) groups := by
    rw [datedProperties_eq, flatMap_map] at hnew
    obtain ⟨groups, rfl, hgroups⟩ := exists_groups hnew
    refine ⟨groups, rfl, ?_⟩
    have hdated : ∀ p ∈ ps.filter m.replaces, m.rawTemporal p.type.raw ≠ .none := by
      intro p hp
      have hp := (mem_filter.1 hp).2
      rw [replaces, and_eq_true, decide_eq_true_eq] at hp
      exact hp.2
    exact ((forall₂_and_left _ _).2 ⟨hdated, hgroups⟩).imp fun p group h => overloads_of h.1 h.2
  have hsame : Forall₂ Refilled qs qs := forall₂_same.2 fun _ _ => .inl rfl
  obtain ⟨groups, rfl, hgroups⟩ := hderived
  unfold milestonedLists
  rcases hempty : (ps.filter m.replaces).isEmpty with _ | _
  · rw [isEmpty_datedProperties, hempty, storedProperties_eq hempty]
    refine ⟨forall_mem_append.2 ⟨replaces_keptProperties m ps, fun e he => ?_⟩, ⟨_, _, rfl, rfl, hedges⟩,
      ⟨_, groups, rfl, hsame, hgroups⟩⟩
    obtain ⟨p, -, hedge⟩ := exists_of_forall₂ hedges he
    rw [replaces, hedge.marked]
    rfl
  · -- Nothing is replaced, so all stays.
    have hnone := isEmpty_iff.1 hempty
    have hkept : m.keptProperties ps = ps := if_pos hempty
    rw [isEmpty_datedProperties, hempty]
    refine ⟨fun p hp => replaces_keptProperties m ps p (hkept.symm ▸ hp),
      ⟨ps, [], (append_nil _).symm, by rw [hkept], ?_⟩, ⟨qs, [], (append_nil _).symm, hsame, ?_⟩⟩
    · rw [hnone]
      exact .nil
    · rw [hnone]
      exact .nil

/-- Compiling bodies changes nothing of it. -/
theorem Model.Milestones.settles {qs' qs'' : List QualifiedProperty} {ps' ps'' : List Property}
    (h : m.Milestones owner ps qs ps' qs') (hps : ps''.map Property.bare = ps'.map Property.bare)
    (hqs : Forall₂ Refilled qs' qs'') : m.Milestones owner ps qs ps'' qs'' := by
  obtain ⟨kept, edges, rfl, hkept, hedges⟩ := h.stored
  obtain ⟨declared, groups, rfl, hdeclared, hgroups⟩ := h.derived
  refine ⟨fun p hp => ?_, ?_, ?_⟩
  · -- Milestoning does not look at default values.
    have hbare : p.bare ∈ (kept ++ edges).map Property.bare := hps ▸ mem_map_of_mem hp
    obtain ⟨p', hp', heq⟩ := mem_map.1 hbare
    exact (congrArg m.replaces heq).symm.trans (h.replaced p' hp')
  · rw [map_append, map_eq_append_iff] at hps
    obtain ⟨kept', edges', rfl, hkept', hedges'⟩ := hps
    refine ⟨kept', edges', rfl, hkept'.trans hkept, ?_⟩
    have hbare : Forall₂ (fun p e => Property.EdgeOf p e.bare) (ps.filter m.replaces) edges' := by
      rw [← forall₂_map_right_iff, hedges', forall₂_map_right_iff]
      exact hedges.imp fun p e he => ⟨he.name, he.owner, he.type, he.multiplicity, he.marked⟩
    exact hbare.imp fun p e he => ⟨he.name, he.owner, he.type, he.multiplicity, he.marked⟩
  · obtain ⟨declared', generated, rfl, hdeclared', hgenerated⟩ := exists_of_forall₂_append hqs
    have hnone : ∀ q ∈ groups.flatten, q.ordinal = none := by
      intro q hq
      obtain ⟨group, hgroup, hq⟩ := mem_flatten.1 hq
      obtain ⟨p, -, hoverloads⟩ := exists_of_forall₂ hgroups hgroup
      obtain ⟨s, -, hq⟩ := exists_of_forall₂ hoverloads hq
      exact hq.generated
    rw [eq_of_refilled hnone hgenerated]
    exact ⟨declared', groups, rfl, forall₂_refilled_trans hdeclared hdeclared', hgroups⟩

/-! ### What stands for a class -/

theorem addOriginals_eq (known : List Property) (m : Model) (owner : TypeRef) (ps : List Property) :
    addOriginals known (datedProperties m owner ps) = withOriginals known (ps.filter m.replaces) := by
  have hproperties : (datedProperties m owner ps).map (·.property) = ps.filter m.replaces := by
    rw [datedProperties_eq, map_map]
    exact map_id _
  rw [addOriginals, withOriginals, hproperties]

theorem withOriginals_nil (known : List Property) : withOriginals known [] = known := append_nil known

theorem MemberLists.replace_eq {lists : MemberLists} (hl : ∀ c, lists.put (lists.get c) c = c) (m : Model)
    (owner : TypeRef) (new : List QualifiedProperty) (c : ClassContent) : lists.replace m owner new c =
      { lists.put (milestonedLists m owner new (lists.get c)) c with
        originals := withOriginals c.originals ((lists.get c).1.filter m.replaces) } := by
  unfold replace milestonedLists
  split
  · rename_i hempty
    rw [isEmpty_datedProperties] at hempty
    rw [isEmpty_iff.1 hempty, withOriginals_nil, hl]
  · rw [addOriginals_eq]

/-- What milestoning makes of a class is told by the model in the end: the types of its members
declare the time dimensions that they did. -/
theorem replaces_grows (hg : Grows K n m) (hp : n.NamesRaw p.type.raw) : m.replaces p = n.replaces p := by
  rw [replaces, replaces, hg.rawTemporal hp]

theorem datedProperties_grows (hg : Grows K n m) (howner : n.element? owner.path = some e)
    (hps : ∀ p ∈ ps, n.NamesRaw p.type.raw) : datedProperties m owner ps = datedProperties n owner ps := by
  rw [datedProperties_eq, datedProperties_eq, filter_congr fun p hp => replaces_grows hg (hps p hp)]
  refine map_congr_left fun p hp => ?_
  rw [hg.declaredTemporal howner, hg.rawTemporal (hps p (mem_of_mem_filter hp))]

theorem milestonedLists_grows (hg : Grows K n m) (howner : n.element? owner.path = some e)
    (hps : ∀ p ∈ ps, n.NamesRaw p.type.raw) (new qs : List QualifiedProperty) :
    milestonedLists m owner new (ps, qs) = milestonedLists n owner new (ps, qs) := by
  have hstored : storedProperties m owner ps = storedProperties n owner ps := by
    unfold storedProperties
    rw [datedProperties_grows hg howner hps]
    refine congrArg (· ++ _) (filter_congr fun p hp => ?_)
    rw [hg.rawTemporal (hps p (mem_of_mem_filter hp))]
  unfold milestonedLists
  rw [datedProperties_grows hg howner hps, hstored]

/-! ### What stands for a class in the end -/

/-- The lists of a class once it is milestoned, where `b` is how it was built, `ps` and `qs` are what
associations gave it, and `new` and `rs` the overloads with their bodies. -/
def ClassContent.milestoned (m : Model) (owner : TypeRef) (ps : List Property) (qs new rs : List QualifiedProperty)
    (b : ClassContent) : ClassContent :=
  { b with
    stage := .milestoned
    properties := (milestonedLists m owner new (b.properties, b.qualified)).1
    qualified := (milestonedLists m owner new (b.properties, b.qualified)).2
    assocProperties := (milestonedLists m owner rs (ps, qs)).1
    assocQualified := (milestonedLists m owner rs (ps, qs)).2
    originals := withOriginals (withOriginals b.originals (b.properties.filter m.replaces)) (ps.filter m.replaces) }

/-- **A class after milestoning, by what it was built with and what associations gave it.** -/
theorem Document.Course.class_lists (u : d.Course o m)
    (hlinks : d.Links o u.measured d.associations as u.linked) {i : Nat} {x : ClassDecl} (hx : d.classes[i]? = some x) :
    ∃ k b new rs, d.At o "classes.structure" i k ∧ x.Members k b ∧
      Forall₂ Bodied ((datedProperties m x.ref b.properties).flatMap (·.derived)) new ∧
      Forall₂ Bodied
        ((datedProperties m x.ref (as.flatMap (·.propertiesAt x.header.path))).flatMap (·.derived)) rs ∧
      u.milestoned.staged? x.header.path = some (.classType (b.milestoned m x.ref
        (as.flatMap (·.propertiesAt x.header.path)) (as.flatMap (·.qualifiedAt x.header.path)) new rs)) := by
  obtain ⟨k, b, hat, hmembers, hproperties, hqualified, hb⟩ := u.class_structured hx
  obtain ⟨n, new, rs, hn, hnew, hrs, hstaged⟩ := u.class_milestoned hx (hlinks.classes hb)
  -- The types of members are there before milestoning, and declare the same ever after.
  have hgrows : Grows (fun _ => True) n m := hn.grows_any u.built
  have hs : (d.steps "classes.milestoning")[i]? = some _ := getElem?_stepsOver hx
  have hlinked := u.linkedAt.grows_steps (List.getElem?_eq_some_iff.1 hs).1.le hn
  obtain ⟨e, he, -⟩ := hn.kinds rfl (mem_of_getElem? hs) _ (.head _)
  have howner : n.element? x.ref.path = some e := by
    show n.element? x.header.path = some e
    rw [element?, he]
  have hown : ∀ p ∈ b.properties, n.NamesRaw p.type.raw := fun p hp => by
    have hk : Grows (within [.classType, .association, .unit]) k u.linked :=
      hat.grows u.linkedAt (by decide) (fun _ => by decide) (by decide)
    exact (hk.any.trans hlinked.any).namesRaw (hmembers.named hat.tidy p hp)
  have hassociated : ∀ p ∈ as.flatMap (·.propertiesAt x.header.path), n.NamesRaw p.type.raw := by
    intro p hp
    obtain ⟨a, ha, hp⟩ := mem_flatMap.1 hp
    exact hlinked.namesRaw (hlinks.named a ha p (a.mem_propertiesAt hp))
  refine ⟨k, b, new, rs, hat, hmembers, ?_, ?_, ?_⟩
  · rw [datedProperties_grows hgrows howner hown]
    exact hnew
  · rw [datedProperties_grows hgrows howner hassociated]
    have hget : (associated.get (b.receive (as.flatMap (·.propertiesAt x.header.path))
        (as.flatMap (·.qualifiedAt x.header.path)))).1 = as.flatMap (·.propertiesAt x.header.path) := by
      show b.assocProperties ++ _ = _
      rw [hproperties, nil_append]
    rwa [Derives, hget] at hrs
  · have hlists : associated.get (b.receive (as.flatMap (·.propertiesAt x.header.path))
        (as.flatMap (·.qualifiedAt x.header.path))) =
        (as.flatMap (·.propertiesAt x.header.path), as.flatMap (·.qualifiedAt x.header.path)) := by
      show (b.assocProperties ++ _, b.assocQualified ++ _) = _
      rw [hproperties, hqualified, nil_append, nil_append]
    have hreplaced {ps : List Property} (hps : ∀ p ∈ ps, n.NamesRaw p.type.raw) :
        ps.filter m.replaces = ps.filter n.replaces :=
      filter_congr fun p hp => replaces_grows hgrows (hps p hp)
    rw [hstaged, replace_eq (fun _ => rfl), associated_get_replace_own, hlists,
      replace_eq (fun _ => rfl), ClassContent.milestoned, hreplaced hown, hreplaced hassociated,
      milestonedLists_grows hgrows howner hown, milestonedLists_grows hgrows howner hassociated]
    rfl

/-- The associations of a document as the pass that declares them has built them. -/
def Document.Linked (d : Document) (o : Options) (as : List AssociationContent) : Prop :=
  Forall₂ (fun y a => d.LinkedAt o y.2 y.1 a) d.associations.zipIdx as

theorem Document.Links.all (h : d.Links o m d.associations as n) : d.Linked o as := by
  have hlength : d.associations.zipIdx.length = as.length := length_zipIdx.trans h.length.symm
  refine forall₂_iff_get.2 ⟨hlength, fun j hj hj' => ?_⟩
  have hd : j < d.associations.length := h.length ▸ hj'
  rw [get_eq_getElem, getElem_zipIdx, Nat.zero_add]
  exact (h.linked (getElem?_eq_getElem hd) (getElem?_eq_getElem hj')).1

/-- **Milestoning is exact.** In a model that was built, each list of a class is what it should be,
by what the class was built with and by what associations gave it: no property is left that is to be
replaced, edge points stand last, and overloads with bodies behind the declared derived properties.
What was replaced is kept with the originals, if none of its name is there. -/
theorem Document.milestoning_exact (h : (d.build o).result = .ok m) {i : Nat} {x : ClassDecl}
    (hx : d.classes[i]? = some x) :
    ∃ k b as c, d.At o "classes.structure" i k ∧ x.Members k b ∧ d.Linked o as ∧
      m.class? x.header.path = some c ∧
      m.Milestones x.ref b.properties b.qualified c.properties c.qualified ∧
      m.Milestones x.ref (as.flatMap (·.propertiesAt x.header.path)) (as.flatMap (·.qualifiedAt x.header.path))
        c.assocProperties c.assocQualified ∧
      c.originals = withOriginals (withOriginals b.originals (b.properties.filter m.replaces))
        ((as.flatMap (·.propertiesAt x.header.path)).filter m.replaces) := by
  obtain ⟨u⟩ := exists_course h
  obtain ⟨as, hlinks⟩ := u.exists_links
  obtain ⟨k, b, new, rs, hat, hmembers, hnew, hrs, hmilestoned⟩ := u.class_lists hlinks hx
  obtain ⟨c, hsettles, hc⟩ := u.class_settles hx hmilestoned
  refine ⟨k, b, as, c, hat, hmembers, hlinks.all, class?_of_staged? hc, ?_, ?_, hsettles.originals⟩
  · exact (milestones_replace hnew).settles hsettles.properties hsettles.qualified
  · exact (milestones_replace hrs).settles (congrArg _ hsettles.assocProperties) hsettles.assocQualified

/-- Two classes with business dates. The first has a property and a derived property, and an
association joins them. -/
def Document.joined : Document :=
  { classes :=
      [{ header := { package := "m", name := "A" }
         annotations := { stereotypes := [{ profile := Temporal.profile, value := "businesstemporal" }] }
         properties := [{ name := "b", typeName := "m::B", bounds := { lower := 1, upper := some 1 } }]
         qualified := [{ name := "self", returnName := "m::A", bounds := { lower := 1, upper := some 1 }
                         body := [Node.reference "this"] }] },
       { header := { package := "m", name := "B" }
         annotations := { stereotypes := [{ profile := Temporal.profile, value := "businesstemporal" }] } }]
    associations :=
      [{ header := { package := "m", name := "R" }
         properties := [{ name := "a", typeName := "m::A", bounds := { lower := 1, upper := some 1 } },
           { name := "bs", typeName := "m::B", bounds := { lower := 0, upper := none } }] }] }

/-- The names in lists of a class, for derived properties with the numbers of arguments and of
expressions in bodies. -/
def MemberLists.outline (lists : MemberLists) (c : ClassContent) : List String × List (String × Nat × Nat) :=
  ((lists.get c).1.map (·.name), (lists.get c).2.map fun q => (q.name, q.arity, q.body.length))

/-- The first class ends with an edge point and three overloads in each list. -/
theorem Document.joined_milestoned : ∃ m x k b as c, (joined.build {}).result = .ok m ∧
    joined.classes[0]? = some x ∧ x.Members k b ∧ joined.Linked {} as ∧ m.class? "m::A" = some c ∧
    m.Milestones x.ref b.properties b.qualified c.properties c.qualified ∧
    m.Milestones x.ref (as.flatMap (·.propertiesAt "m::A")) (as.flatMap (·.qualifiedAt "m::A")) c.assocProperties
      c.assocQualified ∧
    MemberLists.own.outline c = (["businessDate", "milestoning", "bAllVersions"],
      [("self", 0, 1), ("b", 1, 1), ("bAllVersionsInRange", 2, 1), ("b", 0, 1)]) ∧
    MemberLists.associated.outline c = (["bsAllVersions"],
      [("bs", 1, 1), ("bsAllVersionsInRange", 2, 1), ("bs", 0, 1)]) ∧
    c.originals.map (·.name) = ["b", "bs"] := by
  obtain ⟨m, h, c', hc', htest⟩ : ∃ m, (joined.build {}).result = .ok m ∧ ∃ c, m.class? "m::A" = some c ∧
      MemberLists.own.outline c = (["businessDate", "milestoning", "bAllVersions"],
        [("self", 0, 1), ("b", 1, 1), ("bAllVersionsInRange", 2, 1), ("b", 0, 1)]) ∧
      MemberLists.associated.outline c = (["bsAllVersions"],
        [("bs", 1, 1), ("bsAllVersionsInRange", 2, 1), ("bs", 0, 1)]) ∧
      c.originals.map (·.name) = ["b", "bs"] := by
    decide +kernel
  obtain ⟨k, b, as, c, -, hmembers, hlinked, hc, hown, hassociated, -⟩ := milestoning_exact (i := 0) h rfl
  obtain rfl := Option.some.inj (hc.symm.trans hc')
  exact ⟨m, _, k, b, as, c, h, rfl, hmembers, hlinked, hc', hown, hassociated, htest⟩

end ModelGraph
