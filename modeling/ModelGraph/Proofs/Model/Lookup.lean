/-
# Look-ups by name and by kind

A name in an element leads to the element whose path it is, or to one whose path is
the name put behind an imported package. Mappings, connections and runtimes are never
taken from the library. The mappings of a model form a table from paths to contents,
which a change of one mapping changes at its path.

Key theorems: `Model.mapping?_updateMapping`, `Model.Grows.mapping?`, `Model.Grows.resolve`.
-/
import ModelGraph.Proofs.Build.Logic
import ModelGraph.Proofs.Model.Growth

namespace ModelGraph

open Element

open List hiding get

variable {path : String} {span : Span}

theorem mem_distinct {α : Type} [BEq α] [LawfulBEq α] {a : α} : ∀ {l : List α}, a ∈ distinct l ↔ a ∈ l
  | [] => Iff.rfl
  | b :: l => by
    simp only [distinct, mem_cons, mem_filter, mem_distinct]
    by_cases h : a = b <;> simp [h]

/-! ### Names -/

theorem Context.search_ok {α : Type} {c : Context} {get : String → Result α} {a : α}
    (h : c.search path span get = .ok a) :
    get path = .ok a ∨ Path.isQualified path = false ∧
      ∃ package ∈ c.imports, get (package ++ Path.separator ++ path) = .ok a := by
  unfold search at h
  split at h
  · exact .inl h
  rename_i hq
  simp only [Bool.or_eq_true, not_or, Bool.not_eq_true] at hq
  simp only at h
  split at h
  · exact .inl h
  · rename_i full b hits
    cases h
    refine .inr ⟨hq.2, ?_⟩
    obtain ⟨package, hp, hb⟩ := mem_filterMap.1 (hits ▸ mem_singleton_self (full, a))
    refine ⟨package, hp, ?_⟩
    split at hb <;> cases hb
    assumption
  · cases h

namespace Model

variable {m m' : Model} {p q : String} {e : Element} {c : Category} {K : Option Category → Prop}

theorem lookup_ok (h : m.lookup c p span = .ok e) : m.find? c p = some e := by
  unfold lookup at h
  split at h <;> cases h
  assumption

theorem find?_declared (hc : c ∈ [Category.association, .mapping, .connection, .runtime])
    (h : m.find? c p = some e) : m.declared? p = some e ∧ e.category? = some c := by
  unfold find? at h
  split at h
  · rename_i x hx
    cases h
    obtain ⟨hx, hof⟩ := Option.filter_eq_some_iff.1 hx
    refine ⟨hx, ?_⟩
    unfold isOf at hof
    split at hof
    · rename_i heq
      simp [heq] at hc
    · simpa using hof
  · obtain ⟨-, hl⟩ := Option.filter_eq_some_iff.1 h
    simp only [mem_cons, not_mem_nil, or_false] at hc
    rcases hc with rfl | rfl | rfl | rfl <;> simp [fromLibrary] at hl

theorem path_of_library {p : String} (h : Library.find? p = some e) : e.path = p := by
  obtain ⟨g, -, hg⟩ := exists_of_findSome?_eq_some h
  simpa using find?_some (Option.ite_none_right_eq_some.1 hg).2

/-- Nothing is declared under a path of the library. -/
theorem Tidy.undeclared (hm : m.Tidy) (h : Library.find? p = some e) : m.declared? p = none := by
  rcases hd : m.declared? p with _ | x
  · rfl
  · cases (hm.apart hd).symm.trans h

theorem Tidy.element?_library (hm : m.Tidy) (h : Library.find? p = some e) : m.element? p = some e := by
  rw [element?, hm.undeclared h, h]

theorem Tidy.element?_of_find? (hm : m.Tidy) (h : m.find? c p = some e) :
    m.element? e.path = some e ∧ e.isOf c = true := by
  unfold find? at h
  split at h
  · rename_i x hx
    cases h
    obtain ⟨hx, hof⟩ := Option.filter_eq_some_iff.1 hx
    rw [path_of_declared? hx]
    exact ⟨by rw [element?, hx], hof⟩
  · obtain ⟨hl, hof⟩ := Option.filter_eq_some_iff.1 h
    rw [← path_of_library hl] at hl
    exact ⟨hm.element?_library hl, (Bool.and_eq_true_iff.1 hof).1⟩

theorem Tidy.element?_of_resolve (hm : m.Tidy) (h : (Context.of m path).resolve c p span = .ok e) :
    m.element? e.path = some e ∧ e.isOf c = true := by
  rcases Context.search_ok h with h | ⟨-, package, -, h⟩
  · exact hm.element?_of_find? (lookup_ok h)
  · exact hm.element?_of_find? (lookup_ok h)

theorem Tidy.names_resolveType (hm : m.Tidy) {t : TypeRef} (h : (Context.of m path).resolveType p span = .ok t) : m.Names t := by
  obtain ⟨e, he, rfl⟩ := Result.map_eq_ok.1 h
  obtain ⟨hel, hof⟩ := hm.element?_of_resolve he
  obtain ⟨k, hk⟩ := Option.isSome_iff_exists.1 (by simpa [isOf] using hof)
  have ht : e.typeRef? = some (Context.asType e) := by
    simp [Context.asType, typeRef?, hk]
  refine .inr ⟨e, ?_, ht⟩
  simpa [Context.asType, typeRef?, hk] using hel

/-! ### The table of mappings -/

theorem mapping?_eq_some {x : Mapping} :
    m.mapping? p = some x ↔ ∃ e, m.declared? p = some e ∧ e.content = .mapping x := by
  unfold mapping?
  rcases m.declared? p with _ | ⟨name, path, span, annotations, content⟩
  · simp
  · cases content <;> simp

theorem has_mapping : m.Has p .mapping ↔ ∃ x, m.mapping? p = some x := by
  simp only [mapping?_eq_some]
  constructor
  · rintro ⟨e, he, hc⟩
    unfold category? at hc
    split at hc <;> cases hc
    exact ⟨_, e, he, by assumption⟩
  · rintro ⟨x, e, he, hx⟩
    exact ⟨e, he, by simp [category?, hx]⟩

/-- A build step for other kinds of elements leaves the mappings as they are. -/
theorem Grows.mapping? (h : Grows K m m') (hk : ¬ K (some .mapping)) (p : String) :
    m'.mapping? p = m.mapping? p := by
  have hcat {e : Element} {x : Mapping} (hx : e.content = .mapping x) : ¬ K e.category? := by
    simpa [category?, hx] using hk
  refine Option.ext fun x => ?_
  simp only [mapping?_eq_some]
  constructor
  · rintro ⟨e, he, hx⟩
    exact ⟨e, h.unchanged he (hcat hx), hx⟩
  · rintro ⟨e, he, hx⟩
    obtain ⟨e', he', -, rfl | hk'⟩ := h.kept he
    · exact ⟨e', he', hx⟩
    · exact absurd hk' (hcat hx)

theorem Grows.class? (h : Grows K m m') (hk : ¬ K (some .classType)) (p : String) : m'.class? p = m.class? p := by
  have hnone {e : Element} (he : K e.category?) : e.class? = none := by
    unfold Element.class?
    split
    · rename_i hc
      exact absurd (by simpa [category?, hc] using he) hk
    · rfl
  unfold Model.class? Model.element?
  rcases hm : m.declared? p with _ | e
  · rcases hm' : m'.declared? p with _ | e'
    · rfl
    · obtain ⟨hlibrary, hchanged, -⟩ := h.fresh hm hm'
      show e'.class? = _
      rw [hnone hchanged, hlibrary]
      rfl
  · obtain ⟨e', he', hgrown, rfl | hchanged⟩ := h.kept hm
    · rw [he']
    · rw [he']
      show e'.class? = e.class?
      rw [hnone hchanged, hnone (hgrown.category.symm ▸ hchanged)]

theorem mapping?_updateMapping (f : Mapping → Mapping) (p q : String) :
    (m.updateMapping p f).mapping? q = if q = p then (m.mapping? q).map f else m.mapping? q := by
  unfold updateMapping
  rw [Model.mapping?, declared?_update (fun e => by split <;> rfl), Model.mapping?]
  by_cases hq : q = p
  · rw [if_pos hq, if_pos hq]
    rcases m.declared? q with _ | ⟨name, path, span, annotations, content⟩
    · rfl
    · cases content <;> rfl
  · rw [if_neg hq, if_neg hq]

theorem Noted.mapping? (h : m.Noted m') (p : String) : m'.mapping? p = m.mapping? p := by
  rw [Model.mapping?, Model.mapping?, h.declared?]

theorem setsOf_map_snd {x : Mapping} (hx : m.mapping? p = some x) : (m.setsOf p).map (·.2) = x.sets := by
  unfold setsOf
  rw [hx]
  simp only [map_map]
  exact zipIdx_map_fst 0 x.sets

/-! ### Names in models that have grown -/

section Growth

variable {K : Option Category → Prop} {c : Category}

theorem Grows.find? (h : Grows K m m') (hc : c ≠ .type) (hk : ¬ K (some c)) (p : String) :
    m'.find? c p = m.find? c p := by
  have hof {e : Element} (he : e.isOf c = true) : ¬ K e.category? := by
    rw [isOf, if_neg hc, decide_eq_true_eq] at he
    rwa [he]
  have hdeclared : (m'.declared? p).filter (·.isOf c) = (m.declared? p).filter (·.isOf c) := by
    ext e
    rw [Option.filter_eq_some_iff, Option.filter_eq_some_iff]
    constructor
    · rintro ⟨he, hcategory⟩
      exact ⟨h.unchanged he (hof hcategory), hcategory⟩
    · rintro ⟨he, hcategory⟩
      obtain ⟨e', he', -, rfl | hchanged⟩ := h.kept he
      · exact ⟨he', hcategory⟩
      · exact absurd hchanged (hof hcategory)
  rw [Model.find?, Model.find?, hdeclared]

/-- Names of such a category stand for the same. -/
theorem Grows.resolve (h : Grows K m m') (himports : m'.imports = m.imports) (hc : c ≠ .type) (hk : ¬ K (some c)) :
    (Context.of m' p).resolve c = (Context.of m p).resolve c := by
  funext path span
  have hget : (fun q => m'.lookup c q span) = fun q => m.lookup c q span := by
    funext q
    rw [Model.lookup, Model.lookup, h.find? hc hk]
  have hof : (Context.of m' p).imports = (Context.of m p).imports := by
    rw [Context.of, Context.of, importsOf, importsOf, himports]
  show (Context.of m' p).search path span (fun q => m'.lookup c q span) = _
  rw [hget, Context.search, hof]
  rfl

end Growth

end Model
end ModelGraph
