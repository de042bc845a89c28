/-
# Subtypes, and what stays one

The types of a model are closed under supertypes, and there are no more of them than the
bound on searches among types. So the order of a type lists all of its supertypes, and a
subtype stays one as the model grows.

Key definitions: `Library.types`, `Model.types`.
Key theorems: `Model.Tidy.closed_supers`, `Model.Tidy.mem_order`, `Model.Grows.isSubType`.
-/
import ModelGraph.Proofs.Model.Lookup
import ModelGraph.Proofs.Search

namespace ModelGraph

open Relation Search List Element Library

deriving instance ReflBEq, LawfulBEq for TypeKind, TypeRef

/-! ### Types of the library -/

namespace Library

def plainGroups : List (String × List Element) :=
  [("", primitives.map primitiveElement ++ [modelStore])] ++ classGroups ++ [(profilePackage, profiles)]

def types : List TypeRef := groups.flatMap fun g => g.2.filterMap typeRef?

theorem groups_eq :
    groups = plainGroups ++ nativeGroups.map fun g => (g.1, g.2.map fun n => n.element g.1) := rfl

theorem length_types : types.length = typeCount := by
  have h (es : List Element) : (es.filterMap typeRef?).length =
      (es.filter fun e => e.typeKind?.isSome).length := by
    induction es with
    | nil => rfl
    | cons e es ih =>
      rcases hk : e.typeKind? with _ | k <;>
        simp [typeRef?, hk, ih]
  simp only [types, typeCount, length_flatMap, h]

theorem plain_supers : ∀ g ∈ plainGroups, ∀ e ∈ g.2, e.measure? = none ∧ ∀ s ∈ e.superEdges,
    s.1 ∈ (plainGroups.flatMap fun g => g.2.filterMap typeRef?) ∧ (find? s.1.path).isSome = true := by
  decide +kernel

theorem mem_types_of_plain {t : TypeRef}
    (h : t ∈ plainGroups.flatMap fun g => g.2.filterMap typeRef?) : t ∈ types := by
  rw [types, groups_eq, flatMap_append]
  exact mem_append_left _ h

theorem any_found : ∃ e, find? any.path = some e ∧ e.superEdges = [] ∧ ∀ c ∈ e.class?, c.properties = [] := by
  decide +kernel

theorem any_mem_types : any ∈ types := mem_types_of_plain (by decide +kernel)

theorem exists_group_of_find? (h : find? p = some e) : ∃ g ∈ groups, e ∈ g.2 := by
  obtain ⟨g, hg, h⟩ := exists_of_findSome?_eq_some h
  exact ⟨g, hg, mem_of_find?_eq_some (Option.ite_none_right_eq_some.1 h).2⟩

theorem plain_or_native (h : find? p = some e) :
    (∃ g ∈ plainGroups, e ∈ g.2) ∨ ∃ (n : Native) (package : String), e = n.element package := by
  obtain ⟨g, hg, he⟩ := exists_group_of_find? h
  rcases mem_append.1 hg with hg | hg
  · exact .inl ⟨g, hg, he⟩
  · obtain ⟨x, -, rfl⟩ := mem_map.1 hg
    obtain ⟨n, -, rfl⟩ := mem_map.1 he
    exact .inr ⟨n, x.1, rfl⟩

theorem supers_mem_types (h : find? p = some e) : ∀ s ∈ e.superEdges, s.1 ∈ types := by
  rcases plain_or_native h with ⟨g, hg, he⟩ | ⟨n, package, rfl⟩
  · exact fun s hs => mem_types_of_plain ((plain_supers g hg e he).2 s hs).1
  · exact nofun

end Library

namespace Model

variable {m m' : Model} {K : Option Category → Prop} {s t : TypeRef} {p : String} {e : Element}

/-- The types of a model, those of the library included. -/
def types (m : Model) : List TypeRef := m.elements.filterMap typeRef? ++ Library.types

theorem length_types_lt (m : Model) : m.types.length < m.typeBound := by
  have := length_filterMap_le typeRef? m.elements
  simp only [types, length_append, length_types, typeBound]
  omega

theorem Names.mem_types (h : m.Names t) : t ∈ m.types := by
  rcases h with rfl | ⟨e, he, ht⟩
  · exact mem_append_right _ any_mem_types
  unfold element? at he
  split at he
  · rename_i x hx
    cases he
    exact mem_append_left _ (mem_filterMap.2 ⟨e, mem_of_declared? hx, ht⟩)
  · obtain ⟨g, hg, hmem⟩ := exists_group_of_find? he
    exact mem_append_right _
      (mem_flatMap.2 ⟨g, hg, mem_filterMap.2 ⟨e, hmem, ht⟩⟩)

theorem Tidy.supers_mem (hm : m.Tidy) (h : s ∈ m.supers t) : s ∈ m.types := by
  unfold supers at h
  split at h
  · rename_i e he
    obtain ⟨x, hx, rfl⟩ := mem_map.1 h
    unfold element? at he
    split at he
    · rename_i hd
      cases he
      rcases hm.rooted hd x hx with hany | ⟨-, -, hnames⟩
      · rw [hany]
        exact mem_append_right _ any_mem_types
      · exact hnames.mem_types
    · exact mem_append_right _ (supers_mem_types he x hx)
  · cases h

theorem order_perm (m : Model) (t : TypeRef) : (m.order t).Perm (preorder m.supers m.typeBound t) := by
  have h := filter_append_perm (· != Library.any) (preorder m.supers m.typeBound t)
  simpa only [order, bne, Bool.not_not] using h

/-- The order of a type lists the type and all it extends. -/
theorem mem_order_of_closed (h : ∀ t, ∀ s ∈ m.supers t, s ∈ m.types) :
    s ∈ m.order t ↔ ReflTransGen (Edge m.supers) t s := by
  have hlength : (t :: m.types).length ≤ m.typeBound := m.length_types_lt
  rw [(m.order_perm t).mem_iff]
  exact mem_preorder (fun x _ y hy => mem_cons_of_mem _ (h x y hy)) (.head _) hlength

theorem Tidy.mem_order (hm : m.Tidy) : s ∈ m.order t ↔ ReflTransGen (Edge m.supers) t s :=
  mem_order_of_closed fun _ _ => hm.supers_mem

/-! ### Along a build -/

theorem Grows.supers_subset (h : Grows K m m') (hs : s ∈ m.supers t) : s ∈ m'.supers t := by
  unfold Model.supers at hs ⊢
  split at hs
  · rename_i e he
    obtain ⟨e', he', hg⟩ := h.element? he
    rw [he']
    rcases hg.supers with hnil | heq
    · rw [hnil] at hs
      cases hs
    · rwa [← heq] at hs
  · cases hs

theorem Grows.mem_order (h : Grows K m m') (hm : m.Tidy) (hs : s ∈ m.order t) : s ∈ m'.order t := by
  rw [hm.mem_order] at hs
  rw [(h.tidy hm).mem_order]
  exact ReflTransGen.mono (fun _ _ => h.supers_subset) _ _ hs

theorem measureOf?_eq (m : Model) (p : String) : m.measureOf? p = (m.element? p).bind measure? := by
  unfold measureOf?
  cases m.element? p <;> rfl

theorem Grows.measureOf? (h : Grows K m m') {measure : String} (hp : m.measureOf? p = some measure) :
    m'.measureOf? p = some measure := by
  rw [measureOf?_eq] at hp ⊢
  obtain ⟨e, he, hm⟩ := Option.bind_eq_some_iff.1 hp
  obtain ⟨e', he', hg⟩ := h.element? he
  exact Option.bind_eq_some_iff.2 ⟨e', he', hg.measure.trans hm⟩

theorem Grows.isSubType (h : Grows K m m') (hm : m.Tidy) {a b : RawType} (hab : m.isSubType a b = true) :
    m'.isSubType a b = true := by
  simp only [Model.isSubType, Bool.or_eq_true, Bool.and_eq_true, decide_eq_true_eq] at hab ⊢
  rcases hab with (hab | ⟨hp, hmeasure⟩) | hord
  · exact .inl (.inl hab)
  · exact .inl (.inr ⟨hp, h.measureOf? hmeasure⟩)
  · refine .inr ?_
    cases a with
    | function => exact hord
    | named t =>
      simp only [rawOrder, any_map, any_eq_true] at hord ⊢
      obtain ⟨s, hs, hsame⟩ := hord
      exact ⟨s, h.mem_order hm hs, hsame⟩

end Model
end ModelGraph
