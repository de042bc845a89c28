/-
# The ends of an association

An association is built with a property for each end, of the end's type, and each class at an end
holds the property of the other. A derived property goes to the first end unless it gives the first
end's type. When the ends are milestoned, the association takes their lists over, one end after the
other; derived properties that give neither end's type stay behind and come along once more.

Key definitions: `AssociationContent.Shaped`, `AssociationContent.endPaths`.
Key theorems: `AssociationDecl.Members.shaped`, `perm_properties_joined`, `perm_qualified_joined`.
-/
import ModelGraph.Proofs.Domain.Milestoning
import ModelGraph.Proofs.Model.Resolution

namespace ModelGraph

open Model Build List Result RawType DatedProperty

variable {α : Type} {owner : TypeRef} {p : String} {ps : List Property} {rs qs : List QualifiedProperty}
  {c : ClassContent} {f : α → Bool} {l : List α}

/-- An association of the path `r` as it is built between two classes. -/
structure AssociationContent.Shaped (r : String) (first second : TypeRef) (b : AssociationContent) : Prop where
  ends : b.ends = some (first, second)
  properties : ∃ p q, b.properties = [p, q] ∧ (p.owner = r ∧ p.type.raw = .named first) ∧
    q.owner = r ∧ q.type.raw = .named second
  length : b.receivers.length = b.signatures.length
  signatures : ∀ {k : Nat} {t : TypeRef} {q : QualifiedProperty}, b.receivers[k]? = some t → b.signatures[k]? = some q →
    q.Is r k = true ∧ t = if q.type.raw.isRef first then second else first
  qualified : b.qualified = b.signatures

def AssociationContent.endPaths (b : AssociationContent) : List String :=
  b.ends.elim [] fun ends =>
    if ends.1.path = ends.2.path then [ends.1.path] else [ends.1.path, ends.2.path]

namespace ClassContent

def propertiesOf (r : String) (c : ClassContent) : List Property := c.assocProperties.filter (·.owner = r)

/-- The derived properties that a class has from an association. -/
def qualifiedOf (r : String) (c : ClassContent) : List QualifiedProperty := c.assocQualified.filter (·.owner = r)

def declaredOf (r : String) (c : ClassContent) : List QualifiedProperty := (c.qualifiedOf r).filter (·.ordinal.isSome)

/-- Whether a class keeps an original of an association. -/
def replacesOf (r : String) (c : ClassContent) : Bool := c.originals.any (·.owner = r)

/-- Those that give neither end's type. -/
def strayOf (r : String) (first second : TypeRef) (c : ClassContent) : List QualifiedProperty :=
  (c.declaredOf r).filter fun q => !q.type.raw.isRef first && !q.type.raw.isRef second

/-- What an association lists once more when it takes over the lists of its first end. -/
def copies (r : String) (first second : TypeRef) (c : ClassContent) : List QualifiedProperty :=
  if c.replacesOf r then
    if first.path = second.path then c.strayOf r first second ++ c.strayOf r first second
    else c.strayOf r first second
  else []

/-- A class has members of the owner `r` that milestoning has made of `ps` and `qs`. -/
structure Holds (r : String) (ps : List Property) (qs : List QualifiedProperty) (c : ClassContent) : Prop where
  stored : ∀ q ∈ c.propertiesOf r, ∃ p ∈ ps, q.type = p.type
  derived : ∃ new, c.qualifiedOf r = qs ++ new ∧ ∀ q ∈ new, q.ordinal = none ∧ ∃ p ∈ ps, q.type = p.type
  intact : (∀ p ∈ ps, p ∈ c.assocProperties) → c.propertiesOf r = ps ∧ c.qualifiedOf r = qs

end ClassContent

variable {m n : Model} {r : String} {first second : TypeRef} {b : AssociationContent} {x : AssociationDecl}

/-! ### As it is built -/

theorem getElem?_of_forall₂ {β : Type} {R : α → β → Prop} {as : List α} {bs : List β} (h : Forall₂ R as bs)
    {k : Nat} {y : β} (hy : bs[k]? = some y) : ∃ x, as[k]? = some x ∧ R x y := by
  obtain ⟨hlt, rfl⟩ := List.getElem?_eq_some_iff.1 hy
  have hlt' : k < as.length := h.length_eq ▸ hlt
  exact ⟨_, getElem?_eq_getElem hlt', (forall₂_iff_get.1 h).2 k hlt' hlt⟩

theorem RawType.isRef_named (t u : TypeRef) : isRef (.named t) u = decide (t.path = u.path) := rfl

theorem QualifiedDecl.signature_type {q : QualifiedDecl} {c : Context} {owner : String} {this : TypeRef} {i : Nat}
    {y : QualifiedProperty} (h : q.signature c owner this i = .ok y) :
    ∃ t, c.resolveType q.returnPath q.span = .ok t ∧ y.type.raw = .named t := by
  obtain ⟨parameters, -, h⟩ := bind_eq_ok.1 h
  obtain ⟨type, htype, h⟩ := bind_eq_ok.1 h
  obtain ⟨annotations, -, h⟩ := bind_eq_ok.1 h
  cases h
  exact Context.resolveTyped_ok htype

theorem AssociationDecl.resolveEnds_ok {c : Context} {ends : TypeRef × TypeRef} (h : x.resolveEnds c = .ok ends) :
    ∃ p q, x.properties = [p, q] ∧ c.resolveClass p.typePath p.span = .ok ends.1 ∧
      c.resolveClass q.typePath q.span = .ok ends.2 := by
  unfold resolveEnds at h
  split at h
  · rename_i p q hpq
    obtain ⟨first, hfirst, h⟩ := bind_eq_ok.1 h
    obtain ⟨second, hsecond, h⟩ := bind_eq_ok.1 h
    split at h
    · cases h
    · cases h
      exact ⟨p, q, hpq, hfirst, hsecond⟩
  · cases h

/-- **The shape of an association.** Its properties are of the types of its ends. -/
theorem AssociationDecl.Members.shaped (h : x.Members n b) (hn : n.Tidy) (hp : n.Packaged) :
    ∃ first second, b.Shaped x.header.path first second := by
  obtain ⟨⟨first, second⟩, hends, hb, hreceivers⟩ := h.ends
  obtain ⟨y, z, hyz, hy, hz⟩ := resolveEnds_ok hends
  -- The properties of an association are built from the names that its ends are resolved from.
  have htype {y : PropertyDecl} {p : Property} {t : TypeRef} (hbuilt : y.build (Context.of n x.header.path) x.header.path = .ok p)
      (ht : (Context.of n x.header.path).resolveClass y.typePath y.span = .ok t) :
      (p.owner = x.header.path ∧ p.type.raw = .named t) ∧ n.Names t := by
    obtain ⟨howner, -, t', ht', hraw⟩ := PropertyDecl.build_ok hbuilt
    obtain rfl := hn.resolveType_eq hp ht ht'
    exact ⟨⟨howner, hraw⟩, hn.names_resolveType ht'⟩
  have hproperties := h.properties
  rw [hyz, PropertyDecl.Built, forall₂_cons_left_iff] at hproperties
  obtain ⟨p, ps, hbuilt, hps, heq⟩ := hproperties
  obtain ⟨q, qs, hbuilt', hqs, rfl⟩ := forall₂_cons_left_iff.1 hps
  obtain rfl := forall₂_nil_left_iff.1 hqs
  obtain ⟨ends', hends', -, hsigned⟩ := h.signed
  have hlength : b.receivers.length = b.signatures.length := by
    have := hsigned.length_eq
    rw [length_zipIdx, length_zip, hreceivers, length_map, Nat.min_self] at this
    rw [hreceivers, length_map, this]
  refine ⟨first, second, hb, ⟨p, q, heq, (htype hbuilt hy).1, (htype hbuilt' hz).1⟩, hlength, fun {k t y} ht hk => ?_, h.qualified⟩
  refine ⟨h.signed.is hk, ?_⟩
  obtain ⟨⟨⟨w, t'⟩, k'⟩, hw, hsignature⟩ := getElem?_of_forall₂ hsigned hk
  rw [getElem?_zipIdx, Option.map_eq_some_iff] at hw
  obtain ⟨⟨w', t''⟩, hw, heq'⟩ := hw
  cases heq'
  have hreceiver := (getElem?_zip_eq_some.1 hw).1
  rw [hreceivers, getElem?_map, hreceiver] at ht
  cases ht
  obtain ⟨u, hu, hraw⟩ := QualifiedDecl.signature_type hsignature
  rw [receiverOf, hu, hraw, isRef_named]
  by_cases hpath : u.path = first.path
  · obtain rfl := hn.eq_of_names (hn.names_resolveType hu) (htype hbuilt hy).2 hpath
    simp
  · have hne : u ≠ first := fun heq => hpath (heq ▸ rfl)
    simp [hpath, hne]

/-! ### Which class holds what -/

namespace AssociationContent.Shaped

variable (h : b.Shaped r first second)

include h

theorem endPaths_self (hself : first.path = second.path) : b.endPaths = [first.path] := by
  rw [endPaths, h.ends, Option.elim_some, if_pos hself]

theorem endPaths_apart (hne : first.path ≠ second.path) : b.endPaths = [first.path, second.path] := by
  rw [endPaths, h.ends, Option.elim_some, if_neg hne]

theorem mem_endPaths : first.path ∈ b.endPaths ∧ second.path ∈ b.endPaths := by
  by_cases hself : first.path = second.path
  · rw [h.endPaths_self hself, ← hself]
    exact ⟨(.head _), mem_cons_self⟩
  · rw [h.endPaths_apart hself]
    exact ⟨(.head _), mem_cons_of_mem _ (.head _)⟩

theorem forall_endPaths {P : String → Prop} (hfirst : P first.path) (hsecond : P second.path) : ∀ p ∈ b.endPaths, P p := by
  by_cases hself : first.path = second.path
  · rw [h.endPaths_self hself]
    exact forall_mem_singleton.2 hfirst
  · rw [h.endPaths_apart hself]
    exact forall_mem_cons.2 ⟨hfirst, forall_mem_singleton.2 hsecond⟩

theorem propertiesAt_self (hself : first.path = second.path) : b.propertiesAt first.path = b.properties := by
  obtain ⟨p, q, hpq, -, -⟩ := h.properties
  rw [propertiesAt, h.ends, Option.elim_some, if_pos hself, if_pos rfl, hpq]
  rfl

theorem qualifiedAt_eq {t : QualifiedProperty → Bool}
    (ht : ∀ q : QualifiedProperty, (if q.type.raw.isRef first then second else first).path = p ↔ t q = true) :
    b.qualifiedAt p = b.signatures.filter t := by
  have hsnd : (b.receivers.zip b.signatures).map Prod.snd = b.signatures := map_snd_zip (Nat.le_of_eq h.length.symm)
  refine Eq.trans ?_ (congrArg (List.filter t) hsnd)
  rw [qualifiedAt, handed, filter_map]
  refine congrArg _ (filter_congr fun y hy => ?_)
  obtain ⟨k, hk⟩ := getElem?_of_mem hy
  obtain ⟨hk, hk'⟩ := getElem?_zip_eq_some.1 hk
  rw [(h.signatures hk hk').2, Bool.eq_iff_iff, decide_eq_true_iff, ht]
  rfl

theorem qualifiedAt_self (hself : first.path = second.path) : b.qualifiedAt first.path = b.signatures := by
  rw [h.qualifiedAt_eq, filter_true]
  intro q
  split <;> simp [hself]

section

variable (hne : first.path ≠ second.path)
include hne

theorem qualifiedAt_first :
    b.qualifiedAt first.path = b.signatures.filter fun q => !q.type.raw.isRef first := by
  refine h.qualifiedAt_eq fun q => ?_
  cases q.type.raw.isRef first <;> simp [hne.symm]

theorem qualifiedAt_second :
    b.qualifiedAt second.path = b.signatures.filter fun q => q.type.raw.isRef first := by
  refine h.qualifiedAt_eq fun q => ?_
  cases q.type.raw.isRef first <;> simp [hne]

theorem propertiesAt_first : b.propertiesAt first.path = b.properties.drop 1 := by
  rw [propertiesAt, h.ends, Option.elim_some, if_neg hne, if_pos rfl, nil_append]

theorem propertiesAt_second : b.propertiesAt second.path = b.properties.take 1 := by
  rw [propertiesAt, h.ends, Option.elim_some, if_pos rfl, if_neg hne.symm, append_nil]

end

theorem ordinal_isSome : ∀ q ∈ b.signatures, q.ordinal.isSome = true := by
  intro q hq
  obtain ⟨k, hk⟩ := getElem?_of_mem hq
  have hlt : k < b.receivers.length := h.length ▸ (List.getElem?_eq_some_iff.1 hk).1
  rw [(QualifiedProperty.is_iff.1 (h.signatures (getElem?_eq_getElem hlt) hk).1).2, Option.isSome_some]

theorem ordinal_qualifiedAt : ∀ q ∈ b.qualifiedAt p, q.ordinal.isSome = true :=
  fun q hq => by
    obtain ⟨t, ht⟩ := mem_of_mem_handed hq
    exact h.ordinal_isSome q (of_mem_zip ht).2

theorem type_propertiesAt {p : Property} : (p ∈ b.propertiesAt first.path → p.type.raw.isRef second = true) ∧
    (p ∈ b.propertiesAt second.path → p.type.raw.isRef first = true) := by
  obtain ⟨q, q', hpq, hq, hq'⟩ := h.properties
  by_cases hself : first.path = second.path
  · rw [← hself, h.propertiesAt_self hself, hpq]
    simp only [mem_cons, not_mem_nil, or_false]
    refine ⟨?_, ?_⟩
    all_goals
      rintro (rfl | rfl)
      · rw [hq.2, isRef_named]
        simp [hself]
      · rw [hq'.2, isRef_named]
        simp [hself]
  · rw [h.propertiesAt_first hself, h.propertiesAt_second hself, hpq]
    simp only [drop_succ_cons, drop_zero, take_succ_cons, take_zero, mem_singleton]
    refine ⟨?_, ?_⟩
    · rintro rfl
      rw [hq'.2, isRef_named, decide_eq_true rfl]
    · rintro rfl
      rw [hq.2, isRef_named, decide_eq_true rfl]

end AssociationContent.Shaped

/-! ### What milestoning leaves in a class -/

theorem exists_replaced {q : QualifiedProperty}
    (h : Forall₂ Bodied ((datedProperties m owner ps).flatMap (·.derived)) rs) (hq : q ∈ rs) :
    ∃ p ∈ ps, m.replaces p = true ∧ q.owner = p.owner ∧ q.type = p.type ∧ q.ordinal = none := by
  obtain ⟨q₀, hq₀, e, rfl⟩ := exists_of_forall₂ h hq
  obtain ⟨dated, hdated, hq₀⟩ := mem_flatMap.1 hq₀
  rw [datedProperties_eq] at hdated
  obtain ⟨p, hp, rfl⟩ := mem_map.1 hdated
  obtain ⟨hp, hreplaced⟩ := mem_filter.1 hp
  have htarget : m.rawTemporal p.type.raw ≠ .none := by
    rw [replaces, Bool.and_eq_true, decide_eq_true_eq] at hreplaced
    exact hreplaced.2
  rw [derived_eq _ _ htarget] at hq₀
  obtain ⟨s, -, rfl⟩ := mem_map.1 hq₀
  exact ⟨p, hp, hreplaced, rfl, rfl, rfl⟩

/-- **A class holds what milestoning has made of the members that an association gave it.** -/
theorem holds_milestonedLists {ps₀ : List Property} {qs₀ : List QualifiedProperty}
    (hps : ps.filter (·.owner = r) = ps₀) (hqs : qs.filter (·.owner = r) = qs₀)
    (hrs : Forall₂ Bodied ((datedProperties m owner ps).flatMap (·.derived)) rs)
    (hc : (c.assocProperties, c.assocQualified) = milestonedLists m owner rs (ps, qs)) : c.Holds r ps₀ qs₀ := by
  have hmilestones : m.Milestones owner ps qs c.assocProperties c.assocQualified := by
    rw [show c.assocProperties = _ from congrArg Prod.fst hc, show c.assocQualified = _ from congrArg Prod.snd hc]
    exact milestones_replace hrs
  have hstays := hmilestones.replaced
  have hmine {p : Property} : p ∈ ps₀ ↔ p ∈ ps ∧ p.owner = r := by
    rw [← hps, mem_filter, decide_eq_true_iff]
  unfold milestonedLists at hc
  rw [isEmpty_datedProperties] at hc
  rcases hempty : (ps.filter m.replaces).isEmpty with _ | _
  · rw [hempty, storedProperties_eq hempty, datedProperties_eq, map_map] at hc
    obtain ⟨hproperties, hqualified⟩ := Prod.mk.inj hc
    have hkept : m.keptProperties ps = ps.filter fun p =>
        !p.annotations.has Library.milestoningProfile Library.generatedMember && !m.replaces p := by
      rw [keptProperties, hempty, if_neg Bool.false_ne_true]
    have hQ : c.qualifiedOf r = qs₀ ++ rs.filter (·.owner = r) := by
      rw [ClassContent.qualifiedOf, hqualified, filter_append, hqs]
    refine ⟨fun q hq => ?_, ⟨_, hQ, fun q hq => ?_⟩, fun hintact => ?_⟩
    · rw [ClassContent.propertiesOf, hproperties, mem_filter, decide_eq_true_iff] at hq
      rcases mem_append.1 hq.1 with hmem | hmem
      · exact ⟨q, hmine.2 ⟨mem_of_mem_filter (hkept ▸ hmem), hq.2⟩, rfl⟩
      · obtain ⟨p, hp, rfl⟩ := mem_map.1 hmem
        exact ⟨p, hmine.2 ⟨mem_of_mem_filter hp, hq.2⟩, rfl⟩
    · rw [mem_filter, decide_eq_true_iff] at hq
      obtain ⟨p, hp, -, howner, htype, hordinal⟩ := exists_replaced hrs hq.1
      exact ⟨hordinal, p, hmine.2 ⟨hp, howner ▸ hq.2⟩, htype⟩
    · -- What the class still holds was not replaced, so nothing was generated for it.
      have hforeign {p : Property} (hp : p ∈ ps) (hreplaced : m.replaces p = true) : p.owner ≠ r := fun howner => by
        rw [hstays p (hintact p (hmine.2 ⟨hp, howner⟩))] at hreplaced
        cases hreplaced
      have hedges : ∀ q ∈ (ps.filter m.replaces).map (edgePoint ∘ fun p =>
          DatedProperty.of owner (m.declaredTemporal owner) (m.rawTemporal p.type.raw) p), q.owner ≠ r := by
        intro q hq
        obtain ⟨p, hp, rfl⟩ := mem_map.1 hq
        exact hforeign (p := p) (mem_of_mem_filter hp) (mem_filter.1 hp).2
      have hnew : rs.filter (·.owner = r) = [] := filter_eq_nil_iff.2 fun q hq howner => by
        obtain ⟨p, hp, hreplaced, hpowner, -, -⟩ := exists_replaced hrs hq
        exact hforeign hp hreplaced (hpowner ▸ of_decide_eq_true howner)
      refine ⟨?_, by rw [hQ, hnew, append_nil]⟩
      rw [ClassContent.propertiesOf, hproperties, filter_append, filter_eq_nil_iff.2 fun q hq howner =>
        hedges q hq (of_decide_eq_true howner), append_nil, hkept, filter_comm, hps]
      refine filter_eq_self.2 fun p hp => ?_
      have hmem := hintact p hp
      rw [hproperties, mem_append] at hmem
      rcases hmem with hmem | hmem
      · rw [hkept] at hmem
        exact (mem_filter.1 hmem).2
      · exact absurd (hmine.1 hp).2 (hedges p hmem)
  · rw [hempty] at hc
    obtain ⟨hproperties, hqualified⟩ := Prod.mk.inj hc
    have hP : c.propertiesOf r = ps₀ := by rw [ClassContent.propertiesOf, hproperties, hps]
    have hQ : c.qualifiedOf r = qs₀ := by rw [ClassContent.qualifiedOf, hqualified, hqs]
    exact ⟨fun q hq => ⟨q, hP ▸ hq, rfl⟩, ⟨[], by rw [hQ, append_nil], forall_mem_nil _⟩, fun _ => ⟨hP, hQ⟩⟩

/-! ### Taking over what the ends have -/

theorem ClassContent.Holds.declaredOf_eq (h : c.Holds r ps qs)
    (hqs : ∀ q ∈ qs, q.ordinal.isSome = true) : c.declaredOf r = qs := by
  obtain ⟨new, hQ, hnew⟩ := h.derived
  have hnone : new.filter (·.ordinal.isSome) = [] := filter_eq_nil_iff.2 fun q hq => by
    rw [(hnew q hq).1]
    exact Bool.false_ne_true
  rw [ClassContent.declaredOf, hQ, filter_append, hnone, append_nil, filter_eq_self.2 hqs]

namespace AssociationContent

variable {a : AssociationContent} {c : ClassContent} {t u : TypeRef} {κ : String → ClassContent}

theorem fromEnd_neg (h : c.replacesOf r = false) : a.fromEnd r t c = a := by
  rw [fromEnd, if_pos]
  rw [Bool.not_eq_true']
  exact h

theorem fromEnd_pos (h : c.replacesOf r = true) :
    (a.fromEnd r t c).properties = a.properties.filter (!·.type.raw.isRef t) ++ c.propertiesOf r ∧
      (a.fromEnd r t c).qualified = a.qualified.filter (!·.type.raw.isRef t) ++ c.qualifiedOf r := by
  rw [fromEnd, if_neg]
  · exact ⟨rfl, rfl⟩
  · rw [Bool.not_eq_true', Bool.not_eq_false]
    exact h

theorem isRef_congr (h : t.path = u.path) (x : RawType) : x.isRef t = x.isRef u := by
  cases x <;> simp [isRef, same, h]

theorem isRef_apart {x : RawType} (hne : t.path ≠ u.path) (hx : x.isRef t = true) : x.isRef u = false := by
  cases x with
  | named y =>
    rw [isRef_named, decide_eq_true_iff] at hx
    rw [isRef_named, hx, decide_eq_false hne]
  | _ => cases hx

theorem filter_not_eq_nil (h : ∀ y ∈ l, f y = true) : l.filter (!f ·) = [] :=
  filter_eq_nil_iff.2 fun y hy => by rw [h y hy]; exact Bool.false_ne_true

theorem filter_not_eq_self (h : ∀ y ∈ l, f y = false) : l.filter (!f ·) = l :=
  filter_eq_self.2 fun y hy => by rw [h y hy]; rfl

variable (hb : b.Shaped r first second) (hκ : ∀ p ∈ b.endPaths, (κ p).Holds r (b.propertiesAt p) (b.qualifiedAt p))

include hb hκ

theorem type_held : (∀ y ∈ (κ first.path).propertiesOf r, y.type.raw.isRef second = true) ∧
    ∀ y ∈ (κ second.path).propertiesOf r, y.type.raw.isRef first = true := by
  refine ⟨fun y hy => ?_, fun y hy => ?_⟩
  · obtain ⟨p, hp, htype⟩ := (hκ _ hb.mem_endPaths.1).stored y hy
    exact htype ▸ hb.type_propertiesAt.1 hp
  · obtain ⟨p, hp, htype⟩ := (hκ _ hb.mem_endPaths.2).stored y hy
    exact htype ▸ hb.type_propertiesAt.2 hp

/-- **The stored properties of an association whose ends are milestoned.** -/
theorem perm_properties_joined :
    ((b.fromEnd r second (κ first.path)).fromEnd r first (κ second.path)).properties.Perm
      (b.endPaths.flatMap fun p => if (κ p).replacesOf r then (κ p).propertiesOf r else b.propertiesAt p) := by
  obtain ⟨hfirst, hsecond⟩ := type_held hb hκ
  obtain ⟨p, q, hpq, ⟨-, hp⟩, -, hq⟩ := hb.properties
  have hp₁ : p.type.raw.isRef first = true := by rw [hp, isRef_named, decide_eq_true rfl]
  have hq₂ : q.type.raw.isRef second = true := by rw [hq, isRef_named, decide_eq_true rfl]
  by_cases hself : first.path = second.path
  · have hnone : b.properties.filter (!·.type.raw.isRef first) = [] := by
      rw [isRef_congr hself.symm] at hq₂
      rw [hpq]
      exact filter_not_eq_nil (forall_mem_cons.2 ⟨hp₁, forall_mem_singleton.2 hq₂⟩)
    simp only [← isRef_congr hself] at hfirst
    rw [hb.endPaths_self hself, flatMap_singleton, ← hself]
    rcases hD : (κ first.path).replacesOf r with _ | _
    · rw [fromEnd_neg hD, fromEnd_neg hD, hb.propertiesAt_self hself]
      exact .refl _
    · rw [(fromEnd_pos hD).1, (fromEnd_pos hD).1]
      simp only [← isRef_congr hself]
      rw [hnone, nil_append, filter_not_eq_nil hfirst]
      exact .refl _
  · have hq₁ := isRef_apart (Ne.symm hself) hq₂
    have hp₂ := isRef_apart hself hp₁
    rw [hb.endPaths_apart hself, flatMap_cons, flatMap_singleton, hb.propertiesAt_first hself,
      hb.propertiesAt_second hself]
    rcases hD₁ : (κ first.path).replacesOf r with _ | _ <;> rcases hD₂ : (κ second.path).replacesOf r with _ | _
    · rw [fromEnd_neg hD₁, fromEnd_neg hD₂, hpq]
      exact .swap q p []
    · rw [fromEnd_neg hD₁, (fromEnd_pos hD₂).1, hpq]
      have hleft : [p, q].filter (!·.type.raw.isRef first) = [q] := by simp [hp₁, hq₁]
      rw [hleft]
      exact .refl _
    · rw [fromEnd_neg hD₂, (fromEnd_pos hD₁).1, hpq]
      have hleft : [p, q].filter (!·.type.raw.isRef second) = [p] := by simp [hp₂, hq₂]
      rw [hleft]
      exact perm_append_comm
    · rw [(fromEnd_pos hD₂).1, (fromEnd_pos hD₁).1, hpq, filter_append,
        filter_not_eq_self fun y hy => isRef_apart (Ne.symm hself) (hfirst y hy)]
      have hleft : ([p, q].filter (!·.type.raw.isRef second)).filter (!·.type.raw.isRef first) = [] := by simp [hp₁, hq₂]
      rw [hleft]
      exact .refl _

/-- **The derived properties of an association whose ends are milestoned.** -/
theorem perm_qualified_joined :
    ((b.fromEnd r second (κ first.path)).fromEnd r first (κ second.path)).qualified.Perm
      ((b.endPaths.flatMap fun p => if (κ p).replacesOf r then (κ p).qualifiedOf r else (κ p).declaredOf r) ++
        (κ first.path).copies r first second) := by
  have hdeclared {p : String} (hp : p ∈ b.endPaths) : (κ p).declaredOf r = b.qualifiedAt p :=
    (hκ p hp).declaredOf_eq hb.ordinal_qualifiedAt
  obtain ⟨new₁, hQ₁, hnew₁⟩ := (hκ _ hb.mem_endPaths.1).derived
  have htype₁ : ∀ q ∈ new₁, q.type.raw.isRef second = true := fun q hq => by
    obtain ⟨-, p, hp, htype⟩ := hnew₁ q hq
    exact htype ▸ hb.type_propertiesAt.1 hp
  by_cases hself : first.path = second.path
  · have hstray : (κ first.path).strayOf r first second = b.signatures.filter (!·.type.raw.isRef first) := by
      rw [ClassContent.strayOf, hdeclared hb.mem_endPaths.1, hb.qualifiedAt_self hself]
      simp only [← isRef_congr hself, Bool.and_self]
    rw [hb.endPaths_self hself, flatMap_singleton, ← hself, ClassContent.copies, if_pos hself, hstray]
    rcases hD : (κ first.path).replacesOf r with _ | _
    · rw [fromEnd_neg hD, fromEnd_neg hD, hb.qualified, if_neg Bool.false_ne_true, if_neg Bool.false_ne_true,
        append_nil, hdeclared hb.mem_endPaths.1, hb.qualifiedAt_self hself]
    · simp only [← isRef_congr hself] at htype₁
      rw [(fromEnd_pos hD).2, (fromEnd_pos hD).2, hb.qualified]
      simp only [← isRef_congr hself]
      rw [filter_append, filter_filter, hQ₁, hb.qualifiedAt_self hself, filter_append,
        filter_not_eq_nil htype₁, append_nil]
      simp only [Bool.and_self]
      exact perm_append_comm
  · have hstray : (κ first.path).strayOf r first second =
        (b.signatures.filter (!·.type.raw.isRef second)).filter (!·.type.raw.isRef first) := by
      rw [ClassContent.strayOf, hdeclared hb.mem_endPaths.1, hb.qualifiedAt_first hself, filter_filter,
        filter_filter]
      refine filter_congr fun q _ => ?_
      cases q.type.raw.isRef first <;> cases q.type.raw.isRef second <;> rfl
    have hhalf : (b.signatures.filter (!·.type.raw.isRef second)).filter (·.type.raw.isRef first) =
        b.signatures.filter (·.type.raw.isRef first) := by
      rw [filter_filter]
      refine filter_congr fun q _ => ?_
      rcases hq : q.type.raw.isRef first with _ | _
      · rfl
      · rw [isRef_apart hself hq]
        rfl
    rw [hb.endPaths_apart hself, flatMap_cons, flatMap_singleton, ClassContent.copies, if_neg hself, hstray,
      hdeclared hb.mem_endPaths.1, hdeclared hb.mem_endPaths.2, hb.qualifiedAt_first hself, hb.qualifiedAt_second hself]
    rcases hD₁ : (κ first.path).replacesOf r with _ | _ <;> rcases hD₂ : (κ second.path).replacesOf r with _ | _
    · rw [fromEnd_neg hD₁, fromEnd_neg hD₂, hb.qualified, if_neg Bool.false_ne_true, if_neg Bool.false_ne_true,
        if_neg Bool.false_ne_true, append_nil]
      exact (perm_append_comm.trans (filter_append_perm _ _)).symm
    · rw [fromEnd_neg hD₁, (fromEnd_pos hD₂).2, hb.qualified, if_neg Bool.false_ne_true, if_neg Bool.false_ne_true,
        append_nil, if_pos rfl]
    · rw [fromEnd_neg hD₂, (fromEnd_pos hD₁).2, hb.qualified, append_assoc]
      refine perm_append_comm.trans (.append_left _ ?_)
      rw [← hhalf]
      exact (filter_append_perm _ _).symm
    · have hkept : ∀ q ∈ (κ first.path).qualifiedOf r, q.type.raw.isRef first = false := by
        rw [hQ₁, hb.qualifiedAt_first hself]
        refine forall_mem_append.2 ⟨fun q hq => ?_, fun q hq => isRef_apart (Ne.symm hself) (htype₁ q hq)⟩
        rw [← Bool.not_eq_true']
        exact (mem_filter.1 hq).2
      rw [(fromEnd_pos hD₂).2, (fromEnd_pos hD₁).2, hb.qualified, filter_append, filter_not_eq_self hkept,
        append_assoc]
      exact perm_append_comm

end AssociationContent

end ModelGraph
