/-
# What models have in common in their mappings

Models that are alike may have more in common: what a view shows of the mapping of each
path. What is added to both, or changed in both alike, keeps that. Two elements may be
added in either order, unless one stands on the way to the other in the package tree.

Key definitions: `Model.LikeIn`, `Model.own`.
Key theorems: `Model.register_comm`, `Model.LikeIn.updateMapping`, `Model.LikeIn.setContent`.
-/
import ModelGraph.Proofs.Model.Enrolment
import ModelGraph.Proofs.Model.Likeness
import ModelGraph.Proofs.Model.Lookup

namespace ModelGraph

open List Option Package

def ElementContent.mapping? : ElementContent → Option Mapping
  | .mapping x => some x
  | _ => none

namespace Model

variable {γ : Type} {m m' m'' n n' : Model} {p package name path : String} {span : Span} {content : ElementContent}
  {annotations : Annotations} {part : Mapping → γ} {f : Mapping → Mapping}

/-- Models that are alike, also in their options and in what a view shows of the mapping of
each path. -/
structure LikeIn (view : String → Mapping → γ) (m m' : Model) : Prop extends m.Like m' where
  options : m'.options = m.options
  mappings : ∀ p, (m'.mapping? p).map (view p) = (m.mapping? p).map (view p)

variable {view : String → Mapping → γ} {δ : Type}

def own (path : String) (view : Mapping → γ) (p : String) (x : Mapping) : γ × Option Mapping :=
  (view x, if p = path then some x else none)

theorem eq_of_own {x y : Mapping} (h : own path part path x = own path part path y) : x = y := by
  have hsnd := congrArg Prod.snd h
  rw [own, own] at hsnd
  simpa using hsnd

namespace LikeIn

theorem refl (m : Model) : m.LikeIn view m := ⟨.refl m, rfl, fun _ => rfl⟩

theorem symm (h : m.LikeIn view m') : m'.LikeIn view m :=
  ⟨h.toLike.symm, h.options.symm, fun p => (h.mappings p).symm⟩

theorem trans (h : m.LikeIn view m') (k : m'.LikeIn view m'') : m.LikeIn view m'' :=
  ⟨h.toLike.trans k.toLike, k.options.trans h.options, fun p => (k.mappings p).trans (h.mappings p)⟩

theorem of_noted (h : m.Noted m') : m.LikeIn view m' := ⟨.of_noted h, h.options, fun p => by rw [h.mapping?]⟩

theorem noted (h : m.LikeIn view m') (hn : m.Noted n) (hn' : m'.Noted n') : n.LikeIn view n' :=
  (of_noted hn).symm.trans (h.trans (of_noted hn'))

theorem mapping?_own (h : m.LikeIn (Model.own path part) m') : m'.mapping? path = m.mapping? path := by
  rcases map_eq_cases (h.mappings path) with ⟨hm, hm'⟩ | ⟨x, x', hm, hm', hx⟩ <;> rw [hm, hm']
  rw [eq_of_own hx]

theorem own (h : m.LikeIn (fun _ => part) m')
    (hpath : m'.mapping? path = m.mapping? path) : m.LikeIn (Model.own path part) m' := by
  refine ⟨h.toLike, h.options, fun p => ?_⟩
  by_cases hp : p = path
  · rw [hp, hpath]
  · rcases map_eq_cases (h.mappings p) with ⟨hm, hm'⟩ | ⟨x, x', hm, hm', hx⟩ <;> rw [hm, hm']
    rw [map_some, map_some, Model.own, Model.own, hx, if_neg hp, if_neg hp]

end LikeIn

/-- Models that differ in the order of elements and in warnings only. -/
abbrev Same (m m' : Model) : Prop := m.LikeIn (fun _ => id) m'

theorem Like.same (h : m.Like m') (ho : m'.options = m.options) (hm : ∀ p, m'.mapping? p = m.mapping? p) :
    m.Same m' :=
  ⟨h, ho, fun p => by rw [hm]⟩

theorem Same.mapping? (h : m.Same m') (p : String) : m'.mapping? p = m.mapping? p := by
  simpa using h.mappings p

theorem Same.likeIn (h : m.Same m') (part : Mapping → δ) : m.LikeIn (fun _ => part) m' :=
  ⟨h.toLike, h.options, fun p => by rw [h.mapping?]⟩

theorem Like.declared? (h : m.Like m') (hm : ∀ p, m'.mapping? p = m.mapping? p) (p : String) :
    m'.declared? p = m.declared? p := by
  have hmapping := hm p
  rcases map_eq_cases (h.outlines p) with ⟨hm, hm'⟩ | ⟨e, e', hm, hm', hout⟩ <;> rw [hm, hm']
  by_cases he : e.category? = some .mapping
  · have he' : e'.category? = some .mapping := by
      rw [← Element.category?_outline, hout, Element.category?_outline, he]
    obtain ⟨x, hx⟩ := Element.exists_mapping he
    obtain ⟨x', hx'⟩ := Element.exists_mapping he'
    obtain ⟨name, path, span, annotations, content⟩ := e
    obtain ⟨name', path', span', annotations', content'⟩ := e'
    cases hx
    cases hx'
    rw [mapping?, mapping?, hm, hm'] at hmapping
    cases hmapping
    cases hout
    rfl
  · rw [Element.eq_of_outline hout he]

/-! ### Adding elements -/

theorem packageNames_ne_nil (hp : package ≠ "") : packageNames package ≠ [] := by
  rw [packageNames, if_neg hp]
  exact Path.split_ne_nil package

theorem register_kind? (h : m.register package name span content annotations = .ok m') :
    m.packages.Open (packageNames package) ∧ ∀ route, m'.packages.kind? route =
      if route = packageNames package ++ [name] then some (some (Path.join package name))
      else if packageNames package ++ [name] <+: route then none
      else if route <+: packageNames package then some none else m.packages.kind? route := by
  obtain ⟨hp, hadd⟩ := register_add h
  obtain ⟨hopen, -, hkind⟩ := kind?_add (fun hnil => absurd hnil (packageNames_ne_nil hp)) hadd
  exact ⟨hopen, hkind⟩

theorem exists_register (span : Span) (content : ElementContent) (annotations : Annotations)
    (hp : package ≠ "") (hopen : m.packages.Open (packageNames package))
    (hnew : m.element? (Path.join package name) = none) :
    ∃ m', m.register package name span content annotations = .ok m' := by
  have hjoin : Path.join package name = package ++ Path.separator ++ name := by simp [Path.join, hp]
  obtain ⟨t, ht⟩ := exists_add (fun hnil => absurd hnil (packageNames_ne_nil hp)) hopen
    (.leaf name (Path.join package name))
  rw [add] at ht
  rw [register, if_neg hp]
  rcases he : m.packages.ensure (packageNames package) with ⟨packages, _ | problem⟩
  · rw [hjoin] at hnew
    exact ⟨_, by simp only [hnew]; rfl⟩
  · rw [he] at ht
    cases ht

theorem Like.open_iff (h : m.Like m') (ns : List String) : m'.packages.Open ns ↔ m.packages.Open ns := by
  rw [Open, Open]
  simp only [h.tree]

theorem Like.element?_none (h : m.Like m') : m'.element? p = none ↔ m.element? p = none := by
  rcases map_eq_cases (h.element?_outline p) with ⟨hm, hm'⟩ | ⟨e, e', hm, hm', -⟩ <;> simp [hm, hm']

section

variable (h : m.register package name span content annotations = .ok m')
include h

theorem distinct_register :
    m'.Distinct ↔ m.Distinct := by
  refine ⟨fun hd => ?_, register_distinct h⟩
  rw [Distinct, (register_ok h).2.1, map_append] at hd
  exact hd.of_append_left

theorem register_mapping? (p : String) :
    m'.mapping? p = (m.mapping? p).or (if Path.join package name = p then content.mapping? else none) := by
  have hnew := register_new h
  rw [mapping?, mapping?, declared?_append (register_ok h).2.1]
  by_cases hp : Path.join package name = p
  · subst hp
    rw [hnew, if_pos rfl, if_pos rfl]
    cases content <;> rfl
  · rw [if_neg hp, if_neg hp, or_none, or_none]

end

/-- An element is added in both models, or in neither. -/
theorem LikeIn.register (h : m.LikeIn view m')
    (hm : m.register package name span content annotations = .ok n) :
    ∃ n', m'.register package name span content annotations = .ok n' ∧ n.LikeIn view n' := by
  obtain ⟨hopen, hkind⟩ := register_kind? hm
  obtain ⟨hnew, helements, hoptions, himports⟩ := register_ok hm
  obtain ⟨n', hm'⟩ := exists_register span content annotations
    (register_add hm).1 ((h.open_iff _).2 hopen) (h.element?_none.2 hnew)
  obtain ⟨-, hkind'⟩ := register_kind? hm'
  obtain ⟨-, helements', hoptions', himports'⟩ := register_ok hm'
  refine ⟨n', hm', ⟨?_, fun route => ?_, fun p => ?_, ?_, ?_, ?_⟩, ?_, fun p => ?_⟩
  · rw [himports, himports', h.imports]
  · rw [hkind, hkind', h.tree]
  · rw [declared?_append helements, declared?_append helements', map_or, map_or, h.outlines]
  · rw [helements, helements', filter_append, filter_append, h.listed]
  · rw [helements, helements', length_append, length_append, h.length]
  · rw [distinct_register hm, distinct_register hm', h.distinct]
  · rw [hoptions, hoptions', h.options]
  · rw [register_mapping? hm, register_mapping? hm', map_or, map_or, h.mappings]

/-! ### Adding two elements -/

section Comm

variable {a b : Header} {x y : Mapping}

section

variable (ha : m.register a.package a.name a.span content annotations = .ok n)
include ha

theorem open_of_register (hab : ¬ a.route <+: b.route) :
    n.packages.Open (packageNames b.package) ↔ m.packages.Open (packageNames b.package) := by
  obtain ⟨hopen, hkind⟩ := register_kind? ha
  refine forall_congr' fun route => forall_congr' fun s => imp_congr_right fun hpre => ?_
  have hroute : ¬ packageNames a.package ++ [a.name] <+: route ++ [s] := fun h =>
    hab (h.trans (hpre.trans (prefix_append _ _)))
  have hne : route ++ [s] ≠ packageNames a.package ++ [a.name] := fun h => hroute (h ▸ prefix_rfl)
  rw [hkind, if_neg hne, if_neg hroute]
  split
  · rename_i hway
    exact iff_of_true (.inl rfl) (hopen route s hway)
  · rfl

theorem element?_of_register (hp : ¬ Path.join a.package a.name = p) : n.element? p = m.element? p := by
  rw [element?, element?, declared?_append (register_ok ha).2.1]
  simp only [if_neg hp, or_none]

theorem path_ne_of_register (hb : n.element? p = none) : ¬ Path.join a.package a.name = p := by
  rintro rfl
  rw [element?, declared?_append (register_ok ha).2.1] at hb
  simp at hb

end

theorem kind?_comm {m n n' k k' : Package String} {ra rb wa wb : List String} {va vb : String}
    (hwa : wa <+: ra) (hwb : wb <+: rb) (hab : ¬ ra <+: rb) (hba : ¬ rb <+: ra)
    (hn : ∀ route, n.kind? route = if route = ra then some (some va) else if ra <+: route then none
      else if route <+: wa then some none else m.kind? route)
    (hn' : ∀ route, n'.kind? route = if route = rb then some (some vb) else if rb <+: route then none
      else if route <+: wb then some none else n.kind? route)
    (hk : ∀ route, k.kind? route = if route = rb then some (some vb) else if rb <+: route then none
      else if route <+: wb then some none else m.kind? route)
    (hk' : ∀ route, k'.kind? route = if route = ra then some (some va) else if ra <+: route then none
      else if route <+: wa then some none else k.kind? route) (route : List String) :
    k'.kind? route = n'.kind? route := by
  rw [hn', hk', hn, hk]
  -- A route through the one element is neither through the other nor on the way to it.
  have through : ra <+: route → ¬ rb <+: route ∧ ¬ route <+: wb := fun h =>
    ⟨fun h' => ( prefix_or_prefix_of_prefix h h').elim hab hba, fun h' => hab (h.trans (h'.trans hwb))⟩
  have through' : rb <+: route → ¬ route <+: wa := fun h h' => hba (h.trans (h'.trans hwa))
  have here : route = ra → ra <+: route := fun h => h ▸ prefix_rfl
  have here' : route = rb → rb <+: route := fun h => h ▸ prefix_rfl
  by_cases ha : ra <+: route
  · have hb := through ha
    have hne : ¬ route = rb := fun h => hb.1 (here' h)
    simp only [if_neg hb.1, if_neg hb.2, if_neg hne]
  · have hne : ¬ route = ra := fun h => ha (here h)
    simp only [if_neg ha, if_neg hne]
    by_cases hb : rb <+: route
    · simp only [if_neg (through' hb)]
    · have hne' : ¬ route = rb := fun h => hb (here' h)
      simp only [if_neg hne']
      split
      · simp
      · rfl

/-- **Two mappings may be declared in either order** if neither stands on the way to the
other. -/
theorem register_comm (hab : ¬ a.route <+: b.route) (hba : ¬ b.route <+: a.route)
    (ha : m.register a.package a.name a.span (.mapping x) = .ok n)
    (hb : n.register b.package b.name b.span (.mapping y) = .ok n') :
    ∃ k k', m.register b.package b.name b.span (.mapping y) = .ok k ∧
      k.register a.package a.name a.span (.mapping x) = .ok k' ∧ n'.LikeIn view k' := by
  obtain ⟨hnewa, hea, hoa, hia⟩ := register_ok ha
  obtain ⟨hnewb, heb, hob, hib⟩ := register_ok hb
  have hne := path_ne_of_register ha hnewb
  obtain ⟨k, hk⟩ := exists_register b.span (.mapping y) {}
    (register_add hb).1 ((open_of_register ha hab).1 (register_kind? hb).1)
    (element?_of_register ha hne ▸ hnewb)
  obtain ⟨k', hk'⟩ := exists_register a.span (.mapping x) {}
    (register_add ha).1 ((open_of_register hk hba).2 (register_kind? ha).1)
    ((element?_of_register hk fun h => hne h.symm).trans hnewa)
  obtain ⟨-, hek, hok, hik⟩ := register_ok hk
  obtain ⟨-, hek', hok', hik'⟩ := register_ok hk'
  have hdeclared : ∀ p, k'.declared? p = n'.declared? p := by
    intro p
    rw [declared?_append hek', declared?_append hek, declared?_append heb, declared?_append hea]
    by_cases hp : Path.join a.package a.name = p
    · have hp' : ¬ Path.join b.package b.name = p := fun h => hne (hp.trans h.symm)
      simp [hp']
    · simp [hp]
  refine ⟨k, k', hk, hk', ⟨?_, ?_, fun p => ?_, ?_, ?_, ?_⟩, ?_, fun p => ?_⟩
  · rw [hik', hik, hib, hia]
  · exact kind?_comm (prefix_append _ _) (prefix_append _ _) hab hba (register_kind? ha).2
      (register_kind? hb).2 (register_kind? hk).2 (register_kind? hk').2
  · rw [hdeclared]
  · simp [hek', hek, heb, hea, Element.isListed, Element.category?]
  · simp [hek', hek, heb, hea]
  · have hperm : (k'.elements.map (·.path)).Perm (n'.elements.map (·.path)) := by
      rw [hek', hek, heb, hea, append_assoc, append_assoc]
      exact ((List.Perm.swap _ _ []).append_left _).map _
    exact hperm.nodup_iff
  · rw [hok', hok, hob, hoa]
  · rw [mapping?, mapping?, hdeclared]

end Comm

/-! ### Changing elements -/

theorem like_updateMapping (f : Mapping → Mapping) (p : String) : m.Like (m.updateMapping p f) where
  imports := rfl
  tree _ := rfl
  outlines q := by
    rw [updateMapping, declared?_update (fun e => by split <;> rfl)]
    split
    · rw [Option.map_map]
      congr 1
      funext ⟨name, path, span, annotations, content⟩
      cases content <;> rfl
    · rfl
  listed := by
    rw [updateMapping, update]
    induction m.elements with
    | nil => rfl
    | cons e es ih =>
      have hcategory : ∀ x : Mapping, e.content = .mapping x → e.isListed = false := fun x hx => by
        simp [Element.isListed, Element.category?, hx]
      rw [map_cons, filter_cons, filter_cons, ih]
      split
      · split
        · rename_i x hx
          rw [hcategory x hx]
          simp [Element.isListed, Element.category?]
        · rfl
      · rfl
  length := by simp [updateMapping, update]
  distinct := by
    rw [Distinct, Distinct, updateMapping, update_paths fun e => by split <;> rfl]

theorem likeIn_updateMapping
    (hf : ∀ x, m.mapping? p = some x → view p (f x) = view p x) : m.LikeIn view (m.updateMapping p f) := by
  refine ⟨like_updateMapping f p, rfl, fun q => ?_⟩
  rw [mapping?_updateMapping]
  split
  · rename_i hq
    subst hq
    rcases hx : m.mapping? q with _ | x
    · rfl
    · exact congrArg some (hf x hx)
  · rfl

/-- A mapping is changed in both models alike. -/
theorem LikeIn.updateMapping {f' : Mapping → Mapping} (h : m.LikeIn view m')
    (hf : ∀ x x', view p x' = view p x → view p (f' x') = view p (f x)) :
    (m.updateMapping p f).LikeIn view (m'.updateMapping p f') := by
  refine ⟨(like_updateMapping f p).symm.trans (h.toLike.trans (like_updateMapping f' p)), h.options, fun q => ?_⟩
  rw [mapping?_updateMapping, mapping?_updateMapping]
  split
  · rename_i hq
    subst hq
    rcases map_eq_cases (h.mappings q) with ⟨hm, hm'⟩ | ⟨x, x', hm, hm', hview⟩
    · rw [hm, hm']
      rfl
    · rw [hm, hm']
      exact congrArg some (hf x x' hview)
  · exact h.mappings q

theorem listed_setContent (hc : ∀ e : Element, e.content = content → e.isListed = false) :
    (m.setContent p content).elements.filter Element.isListed =
      (m.elements.filter Element.isListed).filter (·.path != p) := by
  rw [setContent, update]
  induction m.elements with
  | nil => rfl
  | cons e es ih =>
    rw [map_cons, filter_cons, ih, filter_cons]
    by_cases hp : e.path = p
    · rw [if_pos hp, hc _ rfl]
      cases e.isListed <;> simp [hp]
    · rw [if_neg hp]
      cases e.isListed <;> simp [hp]

/-- An element that is no mapping, function or store is changed in both models alike. -/
theorem LikeIn.setContent (h : m.LikeIn view m')
    (hc : ∀ e : Element, e.content = content → e.isListed = false) (hm : content.mapping? = none) :
    (m.setContent p content).LikeIn view (m'.setContent p content) := by
  have outline_eq : ∀ e : Element, ({ e with content } : Element).outline =
      { e.outline with content } := by
    rintro ⟨name, path, span, annotations, content'⟩
    have hout : ({ name, path, span, annotations, content } : Element).outline =
        { name, path, span, annotations, content } := by
      cases content <;> first | rfl | cases hm
    rw [hout]
    cases content' <;> rfl
  refine ⟨⟨h.imports, h.tree, fun q => ?_, ?_, ?_, ?_⟩, h.options, fun q => ?_⟩
  · rw [declared?_setContent, declared?_setContent]
    split
    · rcases map_eq_cases (h.outlines q) with ⟨hm, hm'⟩ | ⟨e, e', hm, hm', hout⟩ <;> rw [hm, hm']
      simp only [map_some, outline_eq, hout]
    · exact h.outlines q
  · rw [listed_setContent hc, listed_setContent hc, h.listed]
  · simpa [Model.setContent, update] using h.length
  · have hpaths : ∀ n : Model, (n.setContent p content).elements.map (·.path) = n.elements.map (·.path) :=
      fun n => update_paths fun e => rfl
    rw [Distinct, Distinct, hpaths, hpaths]
    exact h.distinct
  · have hmap : ∀ n : Model, (n.setContent p content).mapping? q = if q = p then none else n.mapping? q := by
      intro n
      rw [mapping?, declared?_setContent, mapping?]
      by_cases hq : q = p
      · rw [if_pos hq, if_pos hq]
        rcases n.declared? q with _ | e
        · rfl
        · cases content <;> first | rfl | cases hm
      · rw [if_neg hq, if_neg hq]
    rw [hmap, hmap]
    split
    · rfl
    · exact h.mappings q

end Model
end ModelGraph
