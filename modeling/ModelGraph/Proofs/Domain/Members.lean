/-
# Members as they were built

The types of stored properties are elements of the model, so the time dimensions that they
declare stay what they are. Compiling bodies leaves of a class all but bodies, default values and
constraints.

Key definitions: `Model.NamesRaw`, `Refilled`.
Key theorems: `Model.Grows.rawTemporal`, `ClassDecl.Members.named`, `ClassContent.Settles.trans`.
-/
import ModelGraph.Proofs.Domain.Numbering

namespace ModelGraph

open Model Build List Option Result

variable {t : TypeRef} {span : Span} {owner package name : String} {r : RawType} {q : Property}
  {annotations : Annotations} {q' : QualifiedProperty} {U : Nat → Prop}

variable {m m' : Model} {K : Option Category → Prop} {p : String}

/-! ### Types of members -/

def Model.NamesRaw (m : Model) (r : RawType) : Prop := ∃ t, r = .named t ∧ m.Names t

theorem Model.Grows.namesRaw (h : Grows K m m') (hr : m.NamesRaw r) : m'.NamesRaw r := by
  obtain ⟨t, rfl, ht⟩ := hr
  exact ⟨t, rfl, h.names ht⟩

theorem Model.Names.element? (h : m.Names t) : ∃ e, m.element? t.path = some e := by
  rcases h with rfl | ⟨e, he, -⟩
  · rcases hany : m.declared? Library.any.path with _ | e
    · obtain ⟨e, he⟩ := isSome_iff_exists.1 (show (Library.find? Library.any.path).isSome = true by decide)
      exact ⟨e, by rw [element?, hany, he]⟩
    · exact ⟨e, by rw [element?, hany]⟩
  · exact ⟨e, he⟩

theorem Model.Grows.declaredTemporal {e : Element} (h : Grows K m m') (he : m.element? t.path = some e) :
    m'.declaredTemporal t = m.declaredTemporal t := by
  obtain ⟨e', he', hgrown⟩ := h.element? he
  unfold Model.declaredTemporal
  simp only [he, he', hgrown.annotations]

theorem Model.Grows.rawTemporal (h : Grows K m m') (hr : m.NamesRaw r) : m'.rawTemporal r = m.rawTemporal r := by
  obtain ⟨t, rfl, ht⟩ := hr
  obtain ⟨e, he⟩ := ht.element?
  exact h.declaredTemporal he

theorem Context.resolveTyped_ok {c : Context} {path : String} {expr : Option TypeExpr} {g : GenericType}
    (h : c.resolveTyped path expr span = .ok g) : ∃ t, c.resolveType path span = .ok t ∧ g.raw = .named t := by
  obtain ⟨g₀, hg₀, h⟩ := bind_eq_ok.1 h
  obtain ⟨t, ht, rfl⟩ := map_eq_ok.1 hg₀
  refine ⟨t, ht, ?_⟩
  split at h
  · cases h
    rfl
  · obtain ⟨args, -, h⟩ := bind_eq_ok.1 h
    cases h
    rfl

theorem PropertyDecl.build_ok {y : PropertyDecl} {c : Context} (h : y.build c owner = .ok q) : q.owner = owner ∧ q.default = none ∧
      ∃ t, c.resolveType y.typePath y.typeSpan = .ok t ∧ q.type.raw = .named t := by
  obtain ⟨type, htype, h⟩ := bind_eq_ok.1 h
  obtain ⟨annotations, -, h⟩ := bind_eq_ok.1 h
  cases h
  exact ⟨rfl, rfl, Context.resolveTyped_ok htype⟩

theorem PropertyDecl.Built.named {ds : List PropertyDecl} {ps : List Property} (h : Built ds m owner ps)
    (hm : m.Tidy) : ∀ q ∈ ps, m.NamesRaw q.type.raw := by
  intro q hq
  obtain ⟨y, -, hy⟩ := exists_of_forall₂ h hq
  obtain ⟨-, -, t, ht, hraw⟩ := build_ok hy
  exact ⟨t, hraw, hm.names_resolveType ht⟩

theorem dateProperties_named (hm : m.Tidy) (owner : TypeRef) (t : Temporal) (span : Span) :
    ∀ q ∈ dateProperties owner t span, m.NamesRaw q.type.raw := by
  have hlibrary {u : TypeRef} (hu : (Library.find? u.path).bind Element.typeRef? = some u) : m.Names u := by
    obtain ⟨e, he, htype⟩ := bind_eq_some_iff.1 hu
    exact .inr ⟨e, hm.element?_library he, htype⟩
  have hdate : m.Names Library.date := hlibrary (by decide)
  have hrange : ∀ u, Library.rangeClass t = some u → m.Names u := by
    rintro u hu
    cases t <;> cases hu <;> exact hlibrary (by decide)
  intro q hq
  unfold dateProperties at hq
  split at hq
  · cases hq
  · rename_i range hr
    rcases mem_append.1 hq with hq | hq
    · obtain ⟨name, -, rfl⟩ := mem_map.1 hq
      exact ⟨_, rfl, hdate⟩
    · rw [mem_singleton.1 hq]
      exact ⟨range, rfl, hrange range hr⟩

theorem ClassDecl.Members.named {x : ClassDecl} {c : ClassContent} (h : x.Members m c) (hm : m.Tidy) :
    ∀ q ∈ c.properties, m.NamesRaw q.type.raw := by
  obtain ⟨ps, hps, heq⟩ := h.properties
  rw [heq]
  exact forall_mem_append.2 ⟨hps.named hm, dateProperties_named hm _ _ _⟩

theorem Model.Tidy.register_association (hm : m.Tidy)
    (h : m.register package name span (.association {}) annotations = .ok m') : m'.Tidy := by
  refine (grows_register (K := fun _ => True) h (fun e he => ⟨trivial, fun c hc => ?_⟩) fun e he => ?_).tidy hm
  · cases he.symm.trans hc
  · rw [Element.superEdges, he]
    exact forall_mem_nil _

theorem Model.names_of_register
    (h : m.register package name span (.association {}) annotations = .ok m') (ht : m'.Names t) : m.Names t := by
  refine ht.imp_right ?_
  rintro ⟨e, he, htype⟩
  refine ⟨e, ?_, htype⟩
  unfold element? at he ⊢
  rw [declared?_append (register_ok h).2.1] at he
  rcases hd : m.declared? t.path with _ | x
  · rw [hd] at he
    split at he
    · rename_i x hx
      split at hx <;> cases hx
      cases he
      cases htype
    · exact he
  · rwa [hd] at he

theorem Model.Grows.staged_of {x : ElementContent} (h : Grows K m m') (hx : m.staged? p = some x)
    (hk : ∀ e : Element, e.content = x → ¬ K e.category?) : m'.staged? p = some x := by
  obtain ⟨e, he, hc, hs⟩ := staged?_eq_some.1 hx
  obtain ⟨e', he', -, rfl | hcategory⟩ := h.kept he
  · exact staged?_eq_some.2 ⟨_, he', hc, hs⟩
  · exact absurd hcategory (hk e hc)

theorem AssociationContent.mem_propertiesAt (a : AssociationContent) (h : q ∈ a.propertiesAt p) :
    q ∈ a.properties := by
  unfold propertiesAt at h
  rcases hends : a.ends with _ | ends <;> rw [hends] at h
  · cases h
  · rcases mem_append.1 h with h | h
    · split at h
      · exact mem_of_mem_take h
      · cases h
    · split at h
      · exact mem_of_mem_drop h
      · cases h

/-! ### Bodies -/

/-- A derived property as it is, or a declared one with another body. -/
def Refilled (q q' : QualifiedProperty) : Prop := q' = q ∨ q.ordinal.isSome = true ∧ ∃ body, q' = { q with body }

/-- What the passes that compile bodies make of a class: they store bodies of declared derived
properties, default values and constraints. -/
structure ClassContent.Settles (c c' : ClassContent) : Prop where
  supers : c'.supers = c.supers
  properties : c'.properties.map Property.bare = c.properties.map Property.bare
  assocProperties : c'.assocProperties = c.assocProperties
  qualified : Forall₂ Refilled c.qualified c'.qualified
  assocQualified : Forall₂ Refilled c.assocQualified c'.assocQualified
  originals : c'.originals = c.originals

theorem Refilled.trans {q q'' : QualifiedProperty} (h : Refilled q q') (k : Refilled q' q'') : Refilled q q'' := by
  rcases h with rfl | ⟨ho, body, rfl⟩
  · exact k
  · rcases k with rfl | ⟨-, body', rfl⟩
    · exact .inr ⟨ho, body, rfl⟩
    · exact .inr ⟨ho, body', rfl⟩

theorem Refill.refilled {q : QualifiedProperty} (h : Refill owner U q q') : Refilled q q' := by
  refine h.imp_right ?_
  rintro ⟨j, body, -, hj, hq⟩
  exact ⟨by rw [(QualifiedProperty.is_iff.1 hj).2, isSome_some], body, hq⟩

theorem forall₂_refilled_trans : ∀ {qs qs' qs'' : List QualifiedProperty}, Forall₂ Refilled qs qs' →
    Forall₂ Refilled qs' qs'' → Forall₂ Refilled qs qs''
  | _, _, _, .nil, .nil => .nil
  | _, _, _, .cons h hs, .cons k ks => .cons (h.trans k) (forall₂_refilled_trans hs ks)

theorem eq_of_refilled {qs qs' : List QualifiedProperty} (hqs : ∀ q ∈ qs, q.ordinal = none)
    (h : Forall₂ Refilled qs qs') : qs' = qs := by
  have hsame : Forall₂ (· = ·) qs' qs := by
    refine Forall₂.flip (((forall₂_and_left _ _).2 ⟨hqs, h⟩).imp fun q q' hq => ?_)
    rcases hq.2 with rfl | ⟨hsome, -⟩
    · rfl
    · rw [hq.1] at hsome
      cases hsome
  rwa [forall₂_eq_eq_eq] at hsame

namespace ClassContent.Settles

variable {c c' c'' : ClassContent}

theorem refl (c : ClassContent) : c.Settles c :=
  ⟨rfl, rfl, rfl, forall₂_same.2 fun _ _ => .inl rfl, forall₂_same.2 fun _ _ => .inl rfl, rfl⟩

theorem trans (h : c.Settles c') (k : c'.Settles c'') : c.Settles c'' where
  supers := k.supers.trans h.supers
  properties := k.properties.trans h.properties
  assocProperties := k.assocProperties.trans h.assocProperties
  qualified := forall₂_refilled_trans h.qualified k.qualified
  assocQualified := forall₂_refilled_trans h.assocQualified k.assocQualified
  originals := k.originals.trans h.originals

theorem of_frame {s : Stage} (h : c'.frame = { c.frame with stage := s })
    (hq : Refills owner U c.qualified c'.qualified) : c.Settles c' where
  supers := show c'.frame.supers = _ from h ▸ rfl
  properties := show c'.frame.properties = _ from h ▸ rfl
  assocProperties := show c'.frame.assocProperties = _ from h ▸ rfl
  qualified := hq.imp fun _ _ hr => hr.refilled
  assocQualified := by
    have hassoc : c'.assocQualified = c.assocQualified := show c'.frame.assocQualified = _ from h ▸ rfl
    rw [hassoc]
    exact forall₂_same.2 fun _ _ => .inl rfl
  originals := show c'.frame.originals = _ from h ▸ rfl

theorem of_refill (owner : String) (bs : List (Nat × List Expr)) (c : ClassContent) : c.Settles (c.refill owner bs) where
  supers := rfl
  properties := rfl
  assocProperties := rfl
  qualified := forall₂_same.2 fun _ _ => .inl rfl
  assocQualified := (Refills.fillAll owner c.assocQualified bs).imp fun _ _ hr => hr.refilled
  originals := rfl

end ClassContent.Settles

end ModelGraph
