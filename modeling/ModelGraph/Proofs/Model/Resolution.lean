/-
# Names of classes

A class is a type, so a name that stands for a class and, looked up among all types, for one of
them stands for the same in both. Elements are declared in packages, so that no short name is the
path of a declared element. In a tidy model a reference to a type is determined by its path.

Key definitions: `Model.Packaged`.
Key theorems: `Path.isQualified_append`, `Model.Tidy.resolveType_eq`, `Model.Tidy.eq_of_names`.
-/
import ModelGraph.Proofs.Model.Checked
import ModelGraph.Proofs.Model.Tree

namespace ModelGraph

open Element Option Result

open List hiding get

namespace Path

theorem splitChars_length (as bs : List Char) : 1 < (splitChars (as ++ ':' :: ':' :: bs)).length := by
  have hpos (cs : List Char) : 0 < (splitChars cs).length := length_pos_iff.2 (splitChars_ne_nil cs)
  generalize hcs : as ++ ':' :: ':' :: bs = cs
  fun_induction splitChars cs generalizing as with
  | case1 => simp at hcs
  | case2 rest ih =>
    have := hpos rest
    simp only [length_cons]
    omega
  | case3 c rest hc hnil ih =>
    exact absurd hnil (splitChars_ne_nil rest)
  | case4 c rest hc s ss hs ih =>
    cases as with
    | nil =>
      cases hcs
      exact (hc _ rfl rfl).elim
    | cons a as =>
      have := ih as (List.cons.inj hcs).2
      rw [hs] at this
      exact this

theorem isQualified_append (package name : String) : isQualified (package ++ separator ++ name) = true := by
  unfold isQualified
  have hlength := splitChars_length package.toList name.toList
  have hlist : (package ++ separator ++ name).toList = package.toList ++ ':' :: ':' :: name.toList := by
    rw [String.toList_append, String.toList_append, append_assoc]
    rfl
  rw [hlist, bne_iff_ne]
  omega

end Path

theorem filterMap_sublist {α β : Type} {f g : α → Option β} (h : ∀ x b, f x = some b → g x = some b) :
    ∀ l : List α, (l.filterMap f).Sublist (l.filterMap g)
  | [] => .slnil
  | x :: l => by
    rw [filterMap_cons, filterMap_cons]
    rcases hf : f x with _ | b
    · rcases g x with _ | b
      · exact filterMap_sublist h l
      · exact (filterMap_sublist h l).cons b
    · rw [h x b hf]
      exact (filterMap_sublist h l).cons_cons b

theorem Library.isQualified_classes :
    (plainGroups.all fun g => g.2.all fun e => e.class?.all fun _ => Path.isQualified e.path) = true := by decide +kernel

theorem Library.class_isQualified {p : String} {e : Element} {c : ClassContent} (h : find? p = some e)
    (hc : e.class? = some c) : Path.isQualified e.path = true := by
  rcases plain_or_native h with ⟨g, hg, he⟩ | ⟨n, package, rfl⟩
  · have hall := all_eq_true.1 (all_eq_true.1 isQualified_classes g hg) e he
    rw [hc] at hall
    exact hall
  · cases hc

namespace Context

variable {α : Type} {c : Context} {path : String} {span : Span} {get get' : String → Result α} {a : α}

/-- Where a short name is found among the imported packages. -/
def hits (c : Context) (path : String) (get : String → Result α) : List (String × α) :=
  c.imports.filterMap fun package =>
    (get (package ++ Path.separator ++ path)).toOption.map (Prod.mk (package ++ Path.separator ++ path))

theorem search_short (hspecial : specialNames.contains path = false) (hshort : Path.isQualified path = false)
    (h : c.search path span get = .ok a) : c.hits path get = [] ∧ get path = .ok a ∨ ∃ full, c.hits path get = [(full, a)] := by
  unfold search at h
  rw [hspecial, hshort] at h
  simp only [Bool.or_self, Bool.false_eq_true, if_false] at h
  split at h
  · rename_i heq
    refine .inl ⟨?_, h⟩
    rw [← heq]
    exact filterMap_congr fun package _ => by cases get (package ++ Path.separator ++ path) <;> rfl
  · rename_i full b heq
    cases h
    refine .inr ⟨full, ?_⟩
    rw [← heq]
    exact filterMap_congr fun package _ => by cases get (package ++ Path.separator ++ path) <;> rfl
  · cases h

theorem hits_sublist (c : Context) (path : String) (h : ∀ p a, get p = .ok a → get' p = .ok a) : (c.hits path get).Sublist (c.hits path get') := by
  refine filterMap_sublist (fun package b hb => ?_) _
  obtain ⟨a, ha, rfl⟩ := map_eq_some_iff.1 hb
  exact map_eq_some_iff.2 ⟨a, toOption_eq_some.2 (h _ _ (toOption_eq_some.1 ha)), rfl⟩

end Context

namespace Model

variable {m m' : Model} {p : String} {e e' : Element} {t t' : TypeRef}

/-- Every declared element is in a package. -/
def Packaged (m : Model) : Prop := ∀ {p e}, m.declared? p = some e → Path.isQualified p = true

theorem Enrolls.packaged {hs : List Header} (h : m.Enrolls hs m') (hm : m.elements = []) : m'.Packaged := by
  intro p e he
  obtain ⟨x, -, hlabel, hpackage⟩ := h.exists_header hm (mem_of_declared? he)
  rw [← path_of_declared? he, (Prod.mk.inj hlabel).2, Header.path, Path.join, if_neg hpackage]
  exact Path.isQualified_append _ _

theorem lookup_eq_ok {c : Category} {span : Span} : m.lookup c p span = .ok e ↔ m.find? c p = some e :=
  ⟨lookup_ok, fun h => by rw [lookup, h]⟩

theorem Packaged.register {package name : String} {span : Span} {content : ElementContent} {annotations : Annotations}
    (h : m.Packaged) (hm : m.register package name span content annotations = .ok m') : m'.Packaged := by
  intro p e he
  rw [declared?_append (register_ok hm).2.1] at he
  rcases hd : m.declared? p with _ | x
  · rw [hd] at he
    split at he
    · rename_i hpath
      rw [← hpath, Path.join, if_neg (register_add hm).1]
      exact Path.isQualified_append _ _
    · cases he
  · exact h hd

/-- An element is determined by its path, and so is a type. -/
theorem Tidy.eq_of_names (hm : m.Tidy) (ht : m.Names t) (ht' : m.Names t') (hpath : t.path = t'.path) : t = t' := by
  have hany {e : Element} (he : m.element? Library.any.path = some e) : e.typeRef? = some Library.any := by
    have hlibrary : (Library.find? Library.any.path).bind typeRef? = some Library.any := by decide
    obtain ⟨x, hx, htype⟩ := bind_eq_some_iff.1 hlibrary
    cases he.symm.trans (hm.element?_library hx)
    exact htype
  rcases ht with rfl | ⟨e, he, htype⟩
  · rcases ht' with rfl | ⟨e', he', htype'⟩
    · rfl
    · exact Option.some.inj ((hany (hpath ▸ he')).symm.trans htype')
  · rcases ht' with rfl | ⟨e', he', htype'⟩
    · exact Option.some.inj (htype.symm.trans (hany (hpath ▸ he)))
    · rw [hpath, he'] at he
      cases he
      exact Option.some.inj (htype.symm.trans htype')

theorem isOf_type (h : e.isOf .classType = true) : e.isOf .type = true := by
  unfold isOf category? at h
  unfold isOf typeKind?
  cases hc : e.content <;> simp [hc] at h ⊢

theorem Tidy.find?_type (hm : m.Tidy) (hp : m.Packaged) (h : m.find? .classType p = some e) :
    m.find? .type p = some e := by
  unfold find? at h ⊢
  rcases hd : m.declared? p with _ | x
  · rw [hd] at h
    obtain ⟨hl, hclass⟩ := filter_eq_some_iff.1 h
    exact filter_eq_some_iff.2 ⟨hl, by simpa [fromLibrary] using isOf_type (by simpa [fromLibrary] using hclass)⟩
  · rw [hd] at h
    by_cases hx : x.isOf .classType = true
    · simp only [filter_some, hx] at h
      cases h
      simp only [filter_some, isOf_type hx, if_true]
    · have hpackage : p ≠ "Package" := by
        rintro rfl
        exact absurd (hp hd) (by decide)
      simp only [filter_some, hx, if_neg hpackage, hm.apart hd] at h
      cases h

theorem Packaged.find?_class (hp : m.Packaged) (hshort : Path.isQualified p = false)
    (hspecial : specialNames.contains p = false) : m.find? .classType p = none := by
  unfold find?
  have hpackage : p ≠ "Package" := by
    rintro rfl
    exact absurd hspecial (by decide)
  rcases hd : m.declared? p with _ | x
  · rw [if_neg hpackage]
    refine filter_eq_none_iff.2 fun e he hof => ?_
    have hclass : e.class?.isSome := by
      have : e.isOf .classType = true := by simpa [fromLibrary] using hof
      unfold isOf category? at this
      unfold Element.class?
      cases hc : e.content <;> simp [hc] at this ⊢
    obtain ⟨c, hc⟩ := isSome_iff_exists.1 hclass
    have := Library.class_isQualified he hc
    rw [path_of_library he, hshort] at this
    cases this
  · rw [hp hd] at hshort
    cases hshort

/-- **A name of a class means the same among all types.** A short name that is found among the types in one
package only can be found among the classes in no other. -/
theorem Tidy.resolveType_eq (hm : m.Tidy) (hp : m.Packaged) {element path : String} {span span' : Span}
    (h : (Context.of m element).resolveClass path span = .ok t)
    (h' : (Context.of m element).resolveType path span' = .ok t') : t' = t := by
  obtain ⟨e, he, rfl⟩ := map_eq_ok.1 h
  obtain ⟨e', he', rfl⟩ := map_eq_ok.1 h'
  have hlookup (q : String) (x : Element) (hx : m.lookup .classType q span = .ok x) :
      m.lookup .type q span' = .ok x :=
    lookup_eq_ok.2 (hm.find?_type hp (lookup_ok hx))
  suffices e' = e by rw [this]
  by_cases hq : (specialNames.contains path || Path.isQualified path) = true
  · rw [Context.resolve, Context.search, if_pos hq] at he he'
    exact Except.ok.inj (he'.symm.trans (hlookup path e he))
  · have hsub := (Context.of m element).hits_sublist path hlookup
    simp only [Bool.or_eq_true, not_or, Bool.not_eq_true] at hq
    rcases Context.search_short hq.1 hq.2 he with ⟨-, hclass⟩ | ⟨full, hclass⟩
    · cases (lookup_ok hclass).symm.trans (hp.find?_class hq.2 hq.1)
    · rcases Context.search_short hq.1 hq.2 he' with ⟨htype, -⟩ | ⟨full', htype⟩
      · cases (hclass ▸ htype ▸ hsub : [(full, e)].Sublist [])
      · cases singleton_sublist.1 (hclass ▸ htype ▸ hsub : [(full, e)].Sublist [(full', e')]) with
        | head => rfl
        | tail _ h => cases h

end Model
end ModelGraph
