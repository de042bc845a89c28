/-
# The order of supertypes, and subtypes of subtypes

The order of a type lists what can be reached from it by supertypes, each type once and `Any` last. The
search comes to an end on cycles too. So a type is a subtype of another by its path, by `Any`, by `Nil`,
as a unit of a measure, or because the other is reached from it.

Only classes extend others than `Any`, and only classes are extended. Hence a subtype of a subtype is a
subtype, but for one case: `Nil` is a class and below every type, and what extends it is not.

Key definitions: `Model.Rooted`, `Model.Reaches`.
Key theorems: `Model.order_exact`, `Document.measure_of_unit`, `Document.isSubType_chained`.
-/
import ModelGraph.Proofs.Hierarchy.Common

namespace ModelGraph

open Relation Search List RawType

variable {m : Model} {s t u : TypeRef} {a b c : RawType} {p q : String}

theorem RawType.same_left (h : a.same b = true) (c : RawType) : a.same c = b.same c := by
  cases a <;> cases b <;> cases c <;> simp_all [same]

namespace Model

/-- Supertypes are types of the model, and `Any` has none. -/
def Rooted (m : Model) : Prop := m.supers Library.any = [] ∧ ∀ t, ∀ s ∈ m.supers t, s ∈ m.types

/-- The supertypes of a type. Nothing is looked for past `Any`. -/
def above (m : Model) (t : TypeRef) : List TypeRef := if t = Library.any then [] else m.supers t

/-- A type can be reached by supertypes. -/
def Reaches (m : Model) (a b : RawType) : Prop :=
  ∃ s t, a = .named s ∧ ReflTransGen (Edge m.above) s t ∧ (RawType.named t).same b = true

theorem Tidy.toRooted (hm : m.Tidy) : m.Rooted := by
  obtain ⟨e, he, hnone, -⟩ := Library.any_found
  refine ⟨?_, fun _ _ => hm.supers_mem⟩
  rw [supers, hm.element?_library he]
  exact map_eq_nil_iff.2 hnone

namespace Rooted

variable (hm : m.Rooted)
include hm

theorem above_eq : m.above = m.supers := by
  funext t
  unfold above
  split
  · rename_i ht
    rw [ht, hm.1]
  · rfl

/-! ### The order -/

theorem visits (t : TypeRef) : Visits m.above [] [t] (preorder m.supers m.typeBound t) := by
  rw [hm.above_eq]
  have hclosed : ∀ x ∈ t :: m.types, ∀ y ∈ m.supers x, y ∈ t :: m.types := fun x _ y hy =>
    mem_cons_of_mem _ (hm.2 x y hy)
  exact visits_preorder hclosed (.head _) m.length_types_lt

theorem mem_order : s ∈ m.order t ↔ ReflTransGen (Edge m.above) t s := by
  rw [hm.above_eq]
  exact mem_order_of_closed hm.2

theorem isSubType_iff (a b : RawType) : m.isSubType a b = true ↔ a.same b = true ∨ b.isAny = true ∨ a.isNil = true ∨
    a.path ≠ "" ∧ m.measureOf? a.path = some b.path ∨ m.Reaches a b := by
  have horder : (m.rawOrder a).any (·.same b) = true ↔ a.same b = true ∨ m.Reaches a b := by
    unfold Reaches
    cases a with
    | function => simp [rawOrder]
    | named s =>
      simp only [rawOrder, any_map, any_eq_true, hm.mem_order, RawType.named.injEq, Function.comp_apply]
      constructor
      · rintro ⟨t, ht⟩
        exact .inr ⟨s, t, rfl, ht⟩
      · rintro (h | ⟨_, t, rfl, ht⟩)
        · exact ⟨s, .refl, h⟩
        · exact ⟨t, ht⟩
  simp only [isSubType, Bool.or_eq_true, Bool.and_eq_true, bne_iff_ne, decide_eq_true_eq, horder]
  tauto

end Rooted

theorem nodup_order (m : Model) (t : TypeRef) : (m.order t).Nodup :=
  (m.order_perm t).nodup_iff.2 (nodup_preorder _ _ _)

theorem filter_order (m : Model) (t : TypeRef) :
    (m.order t).filter (· != Library.any) = (preorder m.supers m.typeBound t).filter (· != Library.any) := by
  simp [order, filter_append, filter_filter]

theorem head?_order (m : Model) (ht : t ≠ Library.any) : (m.order t).head? = some t := by
  rw [order, typeBound, ← cons_drop_preorder, filter_cons_of_pos (by simpa using ht)]
  rfl

theorem getLast?_order (h : Library.any ∈ m.order t) : (m.order t).getLast? = some Library.any := by
  have hany : Library.any ∈ (preorder m.supers m.typeBound t).filter (· == Library.any) :=
    mem_filter.2 ⟨(m.order_perm t).mem_iff.1 h, beq_self_eq_true _⟩
  obtain ⟨l, x, hl⟩ := (eq_nil_or_concat' _).resolve_left (ne_nil_of_mem hany)
  have hx : x = Library.any := by
    have := (mem_filter.1 (hl ▸ mem_append_right l (mem_singleton_self x))).2
    simpa using this
  rw [order, hl, hx, ← append_assoc, getLast?_concat]

/-- **The order of a type is what it extends, in the order of the search.** It lists each type once that can
be reached by supertypes, not looking past `Any`, with the type first, unless it is `Any`, and with `Any`
last. The others stand as a search finds them that has no bound and goes depth first, whatever cycles
there are. So a type is a subtype of another that it is the same as, of `Any`, as `Nil`, as a unit of its
measure, or if the other can be reached. -/
theorem order_exact (hm : m.Rooted) :
    (∀ t, (m.order t).Nodup ∧ (∀ s, s ∈ m.order t ↔ ReflTransGen (Edge m.above) t s) ∧
      (t ≠ Library.any → (m.order t).head? = some t) ∧
      (Library.any ∈ m.order t → (m.order t).getLast? = some Library.any) ∧
      ∃ found, Visits m.above [] [t] found ∧
        (m.order t).filter (· != Library.any) = found.filter (· != Library.any)) ∧
    ∀ a b, m.isSubType a b = true ↔ a.same b = true ∨ b.isAny = true ∨ a.isNil = true ∨
      a.path ≠ "" ∧ m.measureOf? a.path = some b.path ∨ m.Reaches a b :=
  ⟨fun t => ⟨m.nodup_order t, fun _ => hm.mem_order, m.head?_order, getLast?_order, _, hm.visits t,
    m.filter_order t⟩, hm.isSubType_iff⟩

end Model

namespace Document

open Model

/-- Two classes that extend each other. -/
def facing : Document := { classes := [diamond.extending "A" ["B"], diamond.extending "B" ["A"]] }
where
  ref (name : String) : TypeRef := { path := "m::" ++ name, kind := .classType, name }

/-- Where cycles are not checked, the order of a class on a cycle lists the cycle. -/
theorem facing_order : ∃ m, (facing.build { cycles := false }).result = .ok m ∧ m.Rooted ∧
    (∀ s, s ∈ [facing.ref "A", facing.ref "B"] ↔ ReflTransGen (Edge m.above) (facing.ref "A") s) ∧
    ∀ s, s ∈ [facing.ref "B", facing.ref "A"] ↔ ReflTransGen (Edge m.above) (facing.ref "B") s := by
  obtain ⟨m, hok, hA, hB⟩ : ∃ m, (facing.build { cycles := false }).result = .ok m ∧
      m.order (facing.ref "A") = [facing.ref "A", facing.ref "B"] ∧
      m.order (facing.ref "B") = [facing.ref "B", facing.ref "A"] := by
    decide +kernel
  have hroot := (tidy_of_runs (append_nil _).symm ((runPasses_result _ _).1 hok)).toRooted
  have horder := (order_exact hroot).1
  exact ⟨m, hok, hroot, hA ▸ (horder _).2.1, hB ▸ (horder _).2.1⟩

end Document

/-! ### What is extended -/

namespace Model

theorem Tidy.measureOf?_library (hm : m.Tidy) {e : Element} (he : Library.find? p = some e) : m.measureOf? p = none := by
  rw [measureOf?_eq, hm.element?_library he, Option.bind_some]
  rcases Library.plain_or_native he with ⟨g, hg, hmem⟩ | ⟨n, package, rfl⟩
  · exact (Library.plain_supers g hg e hmem).1
  · rfl

/-- No unit is extended. -/
theorem Tidy.measureOf?_super (hm : m.Tidy) (h : s ∈ m.supers t) : m.measureOf? s.path = none := by
  have hany := hm.measureOf?_library Library.any_found.choose_spec.1
  unfold supers at h
  split at h
  · rename_i e he
    obtain ⟨x, hx, rfl⟩ := mem_map.1 h
    unfold element? at he
    split at he
    · rename_i hd
      cases he
      rcases hm.rooted hd x hx with hx | ⟨-, hkind, hx | ⟨y, hy, href⟩⟩
      · rwa [hx]
      · rwa [hx]
      · rw [measureOf?_eq, hy, Option.bind_some]
        obtain ⟨k, hk, heq⟩ := Option.map_eq_some_iff.1 href
        rw [← heq] at hkind
        rw [show k = _ from hkind] at hk
        unfold Element.typeKind? at hk
        unfold Element.measure?
        split at hk <;> simp_all
    · rcases Library.plain_or_native he with ⟨g, hg, hmem⟩ | ⟨n, package, rfl⟩
      · obtain ⟨y, hy⟩ := Option.isSome_iff_exists.1 ((Library.plain_supers g hg e hmem).2 x hx).2
        exact hm.measureOf?_library hy
      · cases hx
  · cases h

/-- A measure extends `Any` only. -/
theorem Tidy.supers_measure (hm : m.Tidy) {e : Element} (he : m.declared? t.path = some e)
    (hc : e.category? = some .measure) (h : s ∈ m.supers t) : s = Library.any := by
  rw [supers, element?, he] at h
  obtain ⟨x, hx, rfl⟩ := mem_map.1 h
  refine (hm.rooted he x hx).resolve_right fun hclass => ?_
  rw [hc] at hclass
  cases hclass.1

/-! ### Subtypes of subtypes -/

theorem Rooted.isSubType_of_same (hm : m.Rooted) (hab : a.same b = true) (hbc : m.isSubType b c = true) :
    m.isSubType a c = true := by
  rw [hm.isSubType_iff] at hbc ⊢
  rw [isNil, path_of_same hab, same_left hab]
  rcases hbc with h | h | h | h | ⟨t, u, rfl, htu, hu⟩
  · exact .inl h
  · exact .inr (.inl h)
  · exact .inr (.inr (.inl h))
  · exact .inr (.inr (.inr (.inl h)))
  · cases a with
    | function => cases hab
    | named s =>
      rcases ReflTransGen.cases_head htu with rfl | ⟨x, hx, hxu⟩
      · exact .inl hu
      · -- Supertypes are found by the path.
        have hx : Edge m.above s x := by
          rw [hm.above_eq, Edge, supers, show s.path = t.path from of_decide_eq_true hab]
          rwa [hm.above_eq] at hx
        exact .inr (.inr (.inr (.inr ⟨s, u, rfl, .head hx hxu, hu⟩)))

/-- What extends `Any` at most is a subtype of what it is the same as, and of `Any`. -/
theorem Rooted.flat_cases (hm : m.Rooted) (hnil : b.isNil = false) (hunit : m.measureOf? b.path = none)
    (hflat : ∀ t, b = .named t → ∀ s ∈ m.supers t, s = Library.any) (h : m.isSubType b c = true) :
    b.same c = true ∨ c.isAny = true := by
  rcases (hm.isSubType_iff _ _).1 h with h | h | h | ⟨-, h⟩ | ⟨t, u, rfl, htu, h⟩
  · exact .inl h
  · exact .inr h
  · cases hnil.symm.trans h
  · cases hunit.symm.trans h
  · rcases ReflTransGen.cases_head htu with rfl | ⟨x, hx, hxu⟩
    · exact .inl h
    · rw [hm.above_eq] at hx
      obtain rfl := hflat t rfl x hx
      rcases ReflTransGen.cases_head hxu with rfl | ⟨y, hy, -⟩
      · exact .inr (decide_eq_true (path_of_same h).symm)
      · rw [Edge, above, if_pos rfl] at hy
        cases hy

theorem Tidy.isSubType_of_transGen (hm : m.Tidy) (hst : TransGen (Edge m.above) s t)
    (h : m.isSubType (.named t) c = true) : m.isSubType (.named s) c = true ∨ (RawType.named t).isNil = true := by
  have hiff := hm.toRooted.isSubType_iff
  have reach {u : TypeRef} (hu : ReflTransGen (Edge m.above) t u) (hc : (RawType.named u).same c = true) :
      m.isSubType (.named s) c = true :=
    (hiff _ _).2 (.inr (.inr (.inr (.inr ⟨s, u, rfl, hst.to_reflTransGen.trans hu, hc⟩))))
  rcases (hiff _ _).1 h with hc | hc | hnil | ⟨-, hunit⟩ | ⟨_, u, heq, hu, hc⟩
  · exact .inl (reach .refl hc)
  · exact .inl ((hiff _ _).2 (.inr (.inl hc)))
  · exact .inr hnil
  · obtain ⟨x, -, hx⟩ := TransGen.tail'_iff.1 hst
    rw [hm.toRooted.above_eq] at hx
    cases (hm.measureOf?_super hx).symm.trans hunit
  · cases heq
    exact .inl (reach hu hc)

/-- **A subtype of a subtype is a subtype**, or extends `Nil`. -/
theorem Tidy.isSubType_trans (hm : m.Tidy) (hunits : ∀ {p q}, m.measureOf? p = some q → m.HasKind q (some .measure))
    (hab : m.isSubType a b = true) (hbc : m.isSubType b c = true) : m.isSubType a c = true ∨
      b.isNil = true ∧ ∃ s t, a = .named s ∧ TransGen (Edge m.above) s t ∧ (RawType.named t).isNil = true := by
  have hroot := hm.toRooted
  have hiff := hroot.isSubType_iff
  rcases (hiff a b).1 hab with h | h | h | ⟨hpath, h⟩ | ⟨s, t, rfl, hst, h⟩
  · exact .inl (hroot.isSubType_of_same h hbc)
  · -- Nothing else is above `Any`.
    have hb : b.path = Library.any.path := of_decide_eq_true h
    have hunit : m.measureOf? b.path = none := hb ▸ hm.measureOf?_library Library.any_found.choose_spec.1
    have hnil : b.isNil = false := by rw [isNil, hb]; decide
    have hc := hroot.flat_cases hnil hunit (fun t ht s hs => by
      rw [supers, show t.path = _ from ht ▸ hb, ← supers, hroot.1] at hs
      cases hs) hbc
    refine .inl ((hiff a c).2 (.inr (.inl (hc.elim (fun hc => ?_) id))))
    rw [isAny, ← path_of_same hc]
    exact h
  · exact .inl ((hiff a c).2 (.inr (.inr (.inl h))))
  · obtain ⟨e, he, hc⟩ := hunits h
    have hnil : b.isNil = false := decide_eq_false fun hb => by
      obtain ⟨x, hx⟩ := Option.isSome_iff_exists.1 (show (Library.find? Library.nil.path).isSome = true by decide)
      cases (hm.undeclared hx).symm.trans (hb ▸ he)
    have hunit : m.measureOf? b.path = none := by
      rw [measureOf?_eq, element?, he, Option.bind_some]
      unfold Element.category? at hc
      unfold Element.measure?
      split at hc <;> simp_all
    rcases hroot.flat_cases hnil hunit (fun t ht s hs => by
      subst ht
      exact hm.supers_measure he hc hs) hbc with hc | hc
    · exact .inl ((hiff a c).2 (.inr (.inr (.inr (.inl ⟨hpath, path_of_same hc ▸ h⟩)))))
    · exact .inl ((hiff a c).2 (.inr (.inl hc)))
  · have htc := hroot.isSubType_of_same h hbc
    rcases reflTransGen_iff_eq_or_transGen.1 hst with rfl | hst
    · exact .inl htc
    · refine (hm.isSubType_of_transGen hst htc).imp_right fun hnil => ⟨?_, s, t, rfl, hst, hnil⟩
      rwa [isNil, ← path_of_same h]

end Model

namespace Document

open Model

variable {d : Document} {o : Options}

theorem exists_unit {name : String} {h : Header} (hmem : (h, some Category.unit) ∈ d.entries name) :
    name = "measures.declare" ∧ ∃ x ∈ d.measures, ∃ u ∈ x.units, x.unitHeader u = h := by
  unfold entries at hmem
  split at hmem
  all_goals
    simp [MeasureDecl.entries] at hmem
  exact ⟨rfl, hmem⟩

/-- The measure of a unit is one. -/
theorem measure_of_unit (h : (d.build o).result = .ok m) (hq : m.measureOf? p = some q) : m.HasKind q (some .measure) := by
  have hruns := (runPasses_result _ _).1 h
  obtain ⟨hplay, hscript⟩ := play_of_runs (append_nil _).symm hruns
  have henrolled := enrolled_of_play hscript hplay
  rw [measureOf?_eq] at hq
  obtain ⟨e, he, hunit⟩ := Option.bind_eq_some_iff.1 hq
  have he : m.declared? p = some e := by
    unfold element? at he
    split at he
    · exact he ▸ ‹_›
    · rw [← measureOf?_eq, henrolled.tidy.measureOf?_library he] at hq
      cases hq
  have hmem := mem_map_of_mem (f := fun e : Element => (e.label, e.category?)) (mem_of_declared? he)
  rw [elements_of_runs (append_nil _).symm hruns, Element.category?_of_measure? hunit] at hmem
  obtain ⟨⟨key, _⟩, hkey, heq⟩ := mem_map.1 hmem
  obtain ⟨hlabel, rfl⟩ := Prod.mk.inj heq
  obtain ⟨pass, hpass, hentry⟩ := mem_flatMap.1 hkey
  obtain ⟨hname, x, hx, u, hu, rfl⟩ := exists_unit hentry
  have hpath : (x.unitHeader u).path = p := (congrArg Prod.snd hlabel).trans (path_of_declared? he)
  have hstep : ("measures.declare", { keys := x.entries, run := x.declare }) ∈ d.script (d.passes o) :=
    mem_flatMap.2 ⟨pass, hpass, by rw [hname]; exact mem_map_of_mem (mem_map_of_mem hx)⟩
  obtain ⟨e', he', hmeasure⟩ := henrolled.units x hstep u hu
  rw [hpath, he] at he'
  cases he'
  cases hunit.symm.trans hmeasure
  exact henrolled.kinds _ (mem_flatMap.2 ⟨_, hstep, .head _⟩)

/-- **Subtypes are in order, unless a class extends `Nil`.** In an accepted model every type is a subtype of
itself, and a subtype of a subtype is a subtype, but for those of `Nil` that are below it by extending it. -/
theorem isSubType_chained (h : (d.build o).result = .ok m) : (∀ a, m.isSubType a a = true) ∧
    ∀ a b c, m.isSubType a b = true → m.isSubType b c = true → m.isSubType a c = true ∨
      b.isNil = true ∧ ∃ s t, a = .named s ∧ TransGen (Edge m.above) s t ∧ (RawType.named t).isNil = true := by
  have htidy : m.Tidy := tidy_of_runs (append_nil _).symm ((runPasses_result _ _).1 h)
  refine ⟨fun a => ?_, fun a b c hab hbc => htidy.isSubType_trans (measure_of_unit h) hab hbc⟩
  rw [isSubType, same_refl]
  rfl

/-- A class is below another through one in between. -/
theorem diamond_chained : ∃ m, (diamond.build {}).result = .ok m ∧
    m.isSubType (diamond.classOf "A") (diamond.classOf "Z") = true := by
  obtain ⟨m, hok, hab, hbc⟩ : ∃ m, (diamond.build {}).result = .ok m ∧
      m.isSubType (diamond.classOf "A") (diamond.classOf "Y") = true ∧
      m.isSubType (diamond.classOf "Y") (diamond.classOf "Z") = true := by
    decide +kernel
  exact ⟨m, hok, ((isSubType_chained hok).2 _ _ _ hab hbc).resolve_right fun h => absurd h.1 (by decide)⟩

def belowNil : Document :=
  { classes := [{ header := { package := "m", name := "A" }, superTypes := [{ path := Library.nil.path }] }] }

/-- A class that extends `Nil` is not below a text, though `Nil` is. -/
theorem belowNil_not_chained : ∃ m, (belowNil.build {}).result = .ok m ∧
    m.isSubType (diamond.classOf "A") (.named Library.nil) = true ∧
    m.isSubType (.named Library.nil) (.named Library.string) = true ∧
    m.isSubType (diamond.classOf "A") (.named Library.string) = false := by
  decide +kernel

end Document
end ModelGraph
