/-
# How a model grows

A build only adds elements and fills in elements that are there. Look-ups by path find
the one element of that path, and what an element is does not change once it is
declared: its name, its category, the measure of a unit, the parameters of a function,
and the supertypes as soon as it has some. `Grows K` says so of two models, and that no
element but those of the categories in `K` was added or changed.

Key definitions: `Model.Distinct`, `Element.Grown`.
Key theorems: `Model.grows_register`, `Model.Grows.has`, `Model.Grows.element?`.
-/
import Mathlib.Data.List.Nodup
import ModelGraph.Expression.Candidate

namespace ModelGraph

open List

variable {f : Element → Element} {package name : String} {span : Span} {content : ElementContent}
  {annotations : Annotations}

namespace Element

def measure? (e : Element) : Option String :=
  match e.content with
  | .unit measure _ => some measure
  | _ => none

def parameters? (e : Element) : Option (List Typed) :=
  match e.content with
  | .function f => some (f.parameters.map fun p => (p.type, p.multiplicity))
  | .native n => some (n.parameters.map fun p => (.ofRef p.1, p.2))
  | _ => none

/-- How far a class, an association or a function is built. -/
def rank (e : Element) : Int :=
  match e.content with
  | .classType c => c.stage.rank
  | .association a => a.stage.rank
  | .function f => f.stage.rank
  | _ => 0

/-- A class has no supertypes before its structure is known. -/
def Bare (e : Element) : Prop :=
  ∀ c, e.content = .classType c → c.stage.rank ≤ Stage.declared.rank → c.supers = []

/-- The same element, further on in a build. -/
structure Grown (e e' : Element) : Prop where
  path : e'.path = e.path
  name : e'.name = e.name
  annotations : e'.annotations = e.annotations
  category : e'.category? = e.category?
  measure : e'.measure? = e.measure?
  parameters : e'.parameters? = e.parameters?
  supers : e.superEdges = [] ∨ e'.superEdges = e.superEdges
  rank : e.rank ≤ e'.rank
  bare : e.Bare → e'.Bare

theorem Grown.refl (e : Element) : e.Grown e :=
  ⟨rfl, rfl, rfl, rfl, rfl, rfl, .inr rfl, Int.le_refl _, fun h => h⟩

theorem Grown.trans {e e' e'' : Element} (h : e.Grown e') (k : e'.Grown e'') : e.Grown e'' where
  path := k.path.trans h.path
  name := k.name.trans h.name
  annotations := k.annotations.trans h.annotations
  category := k.category.trans h.category
  measure := k.measure.trans h.measure
  parameters := k.parameters.trans h.parameters
  supers := by
    rcases h.supers with h | h
    · exact .inl h
    · rcases k.supers with k | k
      · exact .inl (h ▸ k)
      · exact .inr (k.trans h)
  rank := Int.le_trans h.rank k.rank
  bare hb := k.bare (h.bare hb)

theorem typeKind?_eq (e : Element) : e.typeKind? = e.category?.bind fun
    | .classType => some .classType
    | .enumeration => some .enumeration
    | .measure => some .measure
    | .unit => some .unit
    | .type => some .primitive
    | _ => none := by
  unfold typeKind? category?
  cases e.content <;> rfl

theorem Grown.typeRef? {e e' : Element} (h : e.Grown e') : e'.typeRef? = e.typeRef? := by
  rw [Element.typeRef?, Element.typeRef?, typeKind?_eq, typeKind?_eq e, h.category, h.path, h.name]

end Element

namespace Model

variable {m m' m'' : Model} {p q : String} {e e' : Element}

/-! ### Elements by path -/

theorem path_of_declared? (h : m.declared? p = some e) : e.path = p := by
  have := find?_some h
  simpa using this

theorem mem_of_declared? (h : m.declared? p = some e) : e ∈ m.elements := mem_of_find?_eq_some h

theorem declared?_isSome_of_mem (h : e ∈ m.elements) : (m.declared? e.path).isSome :=
  find?_isSome.2 ⟨e, h, by simp⟩

/-- No two elements have one path. -/
def Distinct (m : Model) : Prop := (m.elements.map (·.path)).Nodup

theorem Distinct.declared? (hd : m.Distinct) (h : e ∈ m.elements) : m.declared? e.path = some e := by
  obtain ⟨x, hx⟩ := Option.isSome_iff_exists.1 (declared?_isSome_of_mem h)
  rw [hx]
  exact congrArg some (inj_on_of_nodup_map hd (mem_of_declared? hx) h (path_of_declared? hx))

/-- A reference to a type gives the kind and the name of the element of its path. -/
def Names (m : Model) (t : TypeRef) : Prop :=
  t = Library.any ∨ ∃ e, m.element? t.path = some e ∧ e.typeRef? = some t

/-- What an element may extend: `Any`, or a class if it is one itself. -/
def Extensible (m : Model) (e : Element) (t : TypeRef) : Prop :=
  t = Library.any ∨ e.category? = some .classType ∧ t.kind = .classType ∧ m.Names t

theorem Extensible.mono {t : TypeRef} (h : m.Extensible e t) (hc : e'.category? = e.category?)
    (hnames : m.Names t → m'.Names t) : m'.Extensible e' t := by
  rcases h with h | ⟨hclass, hkind, ht⟩
  · exact .inl h
  · exact .inr ⟨hc.trans hclass, hkind, hnames ht⟩

/-- What every model in a build is: its elements have paths of their own, which are not
those of library elements, its classes take on supertypes with their structure, and
supertypes are there and may be extended. -/
structure Tidy (m : Model) : Prop where
  distinct : m.Distinct
  apart : ∀ {p e}, m.declared? p = some e → Library.find? p = none
  bare : ∀ {p e}, m.declared? p = some e → e.Bare
  rooted : ∀ {p e}, m.declared? p = some e → ∀ s ∈ e.superEdges, m.Extensible e s.1

theorem declared?_congr (h : m'.elements = m.elements) (p : String) : m'.declared? p = m.declared? p := by
  rw [declared?, declared?, h]

theorem declared?_update (hf : ∀ e, (f e).path = e.path) (p q : String) :
    (m.update p f).declared? q = if q = p then (m.declared? q).map f else m.declared? q := by
  unfold declared? update
  induction m.elements with
  | nil => split <;> rfl
  | cons e es ih =>
    rw [map_cons, find?_cons, ih]
    by_cases hp : e.path = p
    · by_cases hq : p = q
      · simp [hp, hq, hf]
      · have : ¬ q = p := fun h => hq h.symm
        simp [hp, hf, hq]
    · by_cases hq : e.path = q
      · have : ¬ q = p := fun h => hp (hq.trans h)
        simp [hq, this]
      · simp [hp, hq]

theorem declared?_setContent (content : ElementContent) (p q : String) :
    (m.setContent p content).declared? q =
      if q = p then (m.declared? q).map fun e => { e with content } else m.declared? q := by
  refine declared?_update ?_ p q
  exact fun _ => rfl

theorem update_paths (hf : ∀ e, (f e).path = e.path) :
    (m.update p f).elements.map (·.path) = m.elements.map (·.path) := by
  unfold update
  rw [map_map]
  refine map_congr_left fun e _ => ?_
  simp only [Function.comp]
  split
  · exact hf e
  · rfl

theorem declared?_append (h : m'.elements = m.elements ++ [e]) (q : String) :
    m'.declared? q = (m.declared? q).or (if e.path = q then some e else none) := by
  rw [declared?, declared?, h]
  split <;> simp_all

section

variable (h : m.register package name span content annotations = .ok m')
include h

theorem register_ok :
    m.element? (Path.join package name) = none ∧
      m'.elements = m.elements ++
        [{ name, path := Path.join package name, span, annotations, content }] ∧
      m'.options = m.options ∧ m'.imports = m.imports := by
  unfold register at h
  split at h
  · cases h
  rename_i hp
  have hjoin : Path.join package name = package ++ Path.separator ++ name := by simp [Path.join, hp]
  split at h
  · cases h
  simp only at h
  split at h
  · cases h
  rename_i hn
  cases h
  rw [hjoin]
  exact ⟨by simpa using hn, rfl, rfl, rfl⟩

theorem register_new :
    m.declared? (Path.join package name) = none := by
  have hn := (register_ok h).1
  unfold Model.element? at hn
  split at hn
  · cases hn
  · assumption

theorem register_not_mem :
    Path.join package name ∉ m.elements.map (·.path) := by
  intro hmem
  obtain ⟨e, he, hpath⟩ := mem_map.1 hmem
  have hsome := declared?_isSome_of_mem he
  rw [hpath, register_new h] at hsome
  cases hsome

theorem register_distinct (hm : m.Distinct) : m'.Distinct := by
  have hnew := hm.concat (register_not_mem h)
  rw [concat_eq_append] at hnew
  rw [Distinct, (register_ok h).2.1, map_append]
  exact hnew

end

/-! ### Growth -/

/-- `m'` is `m` further on in a build; only elements of the categories in `K` were
added or changed. -/
structure Grows (K : Option Category → Prop) (m m' : Model) : Prop where
  options : m'.options = m.options
  kept : ∀ {p e}, m.declared? p = some e →
    ∃ e', m'.declared? p = some e' ∧ e.Grown e' ∧ (e' = e ∨ K e.category?)
  fresh : ∀ {p e'}, m.declared? p = none → m'.declared? p = some e' →
    Library.find? p = none ∧ K e'.category? ∧ e'.Bare
  distinct : m.Distinct → m'.Distinct
  supers : ∀ {p e'}, m'.declared? p = some e' → ∀ s ∈ e'.superEdges,
    m'.Extensible e' s.1 ∨ ∃ e, m.declared? p = some e ∧ s ∈ e.superEdges

variable {K L : Option Category → Prop}

theorem grows_of_elements (h : m'.elements = m.elements) (ho : m'.options = m.options) : Grows K m m' where
  options := ho
  kept {p e} he := ⟨e, by rw [declared?_congr h, he], .refl e, .inl rfl⟩
  fresh {p e'} hn he := by rw [declared?_congr h, hn] at he; cases he
  distinct hd := by rwa [Distinct, h]
  supers {p e'} he s hs := .inr ⟨e', by rwa [← declared?_congr h], hs⟩

theorem Grows.refl (m : Model) : Grows K m m := grows_of_elements rfl rfl

section

variable (h : Grows K m m')
include h

/-- The element of a path, declared or not, stays what it is. -/
theorem Grows.element? (he : m.element? p = some e) :
    ∃ e', m'.element? p = some e' ∧ e.Grown e' := by
  unfold Model.element? at he ⊢
  split at he
  · rename_i x hx
    cases he
    obtain ⟨e', he', hg, -⟩ := h.kept hx
    exact ⟨e', by rw [he'], hg⟩
  · rename_i hx
    rcases hp : m'.declared? p with _ | x
    · exact ⟨e, he, .refl e⟩
    · rw [(h.fresh hx hp).1] at he
      cases he

theorem Grows.names {t : TypeRef} (ht : m.Names t) : m'.Names t := by
  rcases ht with ht | ⟨e, he, ht⟩
  · exact .inl ht
  · obtain ⟨e', he', hg⟩ := h.element? he
    exact .inr ⟨e', he', hg.typeRef?.trans ht⟩

theorem Grows.trans (k : Grows K m' m'') : Grows K m m'' where
  options := k.options.trans h.options
  kept {p e} he := by
    obtain ⟨e', he', hg, hk⟩ := h.kept he
    obtain ⟨e'', he'', hg', hk'⟩ := k.kept he'
    refine ⟨e'', he'', hg.trans hg', ?_⟩
    rcases hk with rfl | hk
    · exact hk'
    · exact .inr hk
  fresh {p e''} hn he := by
    rcases hp : m'.declared? p with _ | e'
    · exact k.fresh hp he
    · obtain ⟨x, hx, hg, -⟩ := k.kept hp
      rw [he] at hx
      cases hx
      obtain ⟨hl, hk, hb⟩ := h.fresh hn hp
      exact ⟨hl, hg.category ▸ hk, hg.bare hb⟩
  distinct hd := k.distinct (h.distinct hd)
  supers {p e''} he s hs := by
    rcases k.supers he s hs with ht | ⟨e', he', hs'⟩
    · exact .inl ht
    · obtain ⟨x, hx, hg, -⟩ := k.kept he'
      cases he.symm.trans hx
      exact (h.supers he' s hs').imp_left fun ht => ht.mono hg.category k.names

theorem Grows.mono (hk : ∀ c, K c → L c) : Grows L m m' where
  options := h.options
  kept he := by
    obtain ⟨e', he', hg, hc⟩ := h.kept he
    exact ⟨e', he', hg, hc.imp_right (hk _)⟩
  fresh hn he := by
    obtain ⟨hl, hc, hb⟩ := h.fresh hn he
    exact ⟨hl, hk _ hc, hb⟩
  distinct := h.distinct
  supers := h.supers

theorem Grows.tidy (hm : m.Tidy) : m'.Tidy where
  distinct := h.distinct hm.distinct
  apart {p e'} he := by
    rcases hp : m.declared? p with _ | e
    · exact (h.fresh hp he).1
    · exact hm.apart hp
  bare {p e'} he := by
    rcases hp : m.declared? p with _ | e
    · exact (h.fresh hp he).2.2
    · obtain ⟨x, hx, hg, -⟩ := h.kept hp
      rw [he] at hx
      cases hx
      exact hg.bare (hm.bare hp)
  rooted {p e'} he s hs := by
    rcases h.supers he s hs with ht | ⟨e, hp, hs'⟩
    · exact ht
    · obtain ⟨x, hx, hg, -⟩ := h.kept hp
      cases he.symm.trans hx
      exact (hm.rooted hp s hs').mono hg.category h.names

end

theorem grows_update (hf : ∀ e, (f e).path = e.path)
    (h : ∀ e, m.declared? p = some e → e.Grown (f e) ∧ (f e = e ∨ K e.category?))
    (hs : ∀ e, m.declared? p = some e → (f e).superEdges = e.superEdges ∨
      ∀ s ∈ (f e).superEdges, (m.update p f).Extensible (f e) s.1) :
    Grows K m (m.update p f) where
  options := rfl
  kept {q e} he := by
    rw [declared?_update hf]
    split
    · rename_i hq
      subst hq
      rw [he]
      exact ⟨f e, rfl, h e he⟩
    · exact ⟨e, he, .refl e, .inl rfl⟩
  fresh {q e'} hn he := by
    rw [declared?_update hf, hn] at he
    split at he <;> cases he
  distinct hd := by rwa [Distinct, update_paths hf]
  supers {q e'} he s hmem := by
    rw [declared?_update hf] at he
    split at he
    · rename_i hq
      subst hq
      obtain ⟨e, hm, rfl⟩ := Option.map_eq_some_iff.1 he
      rcases hs e hm with heq | hn
      · exact .inr ⟨e, hm, heq ▸ hmem⟩
      · exact .inl (hn s hmem)
    · exact .inr ⟨e', he, hmem⟩

theorem grows_setContent (he : m.declared? p = some e) (hg : e.Grown { e with content }) (hk : K e.category?)
    (hs : ({ e with content } : Element).superEdges = e.superEdges) : Grows K m (m.setContent p content) := by
  refine grows_update (fun _ => rfl) (fun x hx => ?_) fun x hx => ?_
  all_goals
    rw [he] at hx
    cases hx
  · exact ⟨hg, .inr hk⟩
  · exact .inl hs

theorem names_update (hf : ∀ e, (f e).path = e.path)
    (ht : ∀ e, m.declared? p = some e → (f e).typeRef? = e.typeRef?) {t : TypeRef} (h : m.Names t) :
    (m.update p f).Names t := by
  rcases h with h | ⟨e, he, h⟩
  · exact .inl h
  refine .inr ?_
  unfold Model.element? at he ⊢
  rw [declared?_update hf]
  rcases hd : m.declared? t.path with _ | x <;> rw [hd] at he
  · exact ⟨e, by simpa using he, h⟩
  · cases he
    by_cases hp : t.path = p
    · exact ⟨f e, by simp [hp], (ht e (hp ▸ hd)).trans h⟩
    · exact ⟨e, by simp [hp], h⟩

theorem Grows.update_fresh (h : Grows K m m') (hn : m.declared? p = none) (hf : ∀ e, (f e).path = e.path)
    (hk : ∀ e, m'.declared? p = some e → K (f e).category? ∧ (f e).Bare)
    (hs : ∀ e, m'.declared? p = some e → ∀ s ∈ (f e).superEdges, s.1 = Library.any)
    (ht : ∀ e, m'.declared? p = some e → (f e).typeRef? = e.typeRef?) :
    Grows K m (m'.update p f) where
  options := h.options
  kept {q e} he := by
    obtain ⟨e', he', hg⟩ := h.kept he
    have hq : q ≠ p := by rintro rfl; rw [hn] at he; cases he
    exact ⟨e', by rw [declared?_update hf, if_neg hq, he'], hg⟩
  fresh {q e'} hq he := by
    rw [declared?_update hf] at he
    split at he
    · rename_i hqp
      subst hqp
      obtain ⟨e, hm', rfl⟩ := Option.map_eq_some_iff.1 he
      exact ⟨(h.fresh hn hm').1, hk e hm'⟩
    · exact h.fresh hq he
  distinct hd := by rw [Distinct, update_paths hf]; exact h.distinct hd
  supers {q e'} he s hmem := by
    rw [declared?_update hf] at he
    split at he
    · rename_i hq
      subst hq
      obtain ⟨e, hm, rfl⟩ := Option.map_eq_some_iff.1 he
      exact .inl (.inl (hs e hm s hmem))
    · exact (h.supers he s hmem).imp_left fun h => h.mono rfl (names_update hf ht)

theorem grows_register (h : m.register package name span content annotations = .ok m')
    (hk : ∀ e : Element, e.content = content → K e.category? ∧ e.Bare)
    (hs : ∀ e : Element, e.content = content → ∀ s ∈ e.superEdges, s.1 = Library.any) : Grows K m m' := by
  obtain ⟨hn, he, ho, -⟩ := register_ok h
  have hd : m.declared? (Path.join package name) = none := register_new h
  have hl : Library.find? (Path.join package name) = none := by
    rwa [element?, hd] at hn
  constructor
  · exact ho
  · intro p e hp
    exact ⟨e, by rw [declared?_append he, hp]; rfl, .refl e, .inl rfl⟩
  · intro p e' hp hp'
    rw [declared?_append he, hp] at hp'
    split at hp'
    · rename_i hpath
      cases hp'
      rw [← hpath]
      exact ⟨hl, hk _ rfl⟩
    · cases hp'
  · exact register_distinct h
  · intro p e' hp s hmem
    rw [declared?_append he] at hp
    rcases hm : m.declared? p with _ | e
    · rw [hm] at hp
      split at hp <;> cases hp
      exact .inl (.inl (hs _ rfl s hmem))
    · rw [hm] at hp
      exact .inr ⟨e', hp, hmem⟩

structure Noted (m m' : Model) : Prop where
  elements : m'.elements = m.elements
  packages : m'.packages = m.packages
  options : m'.options = m.options
  imports : m'.imports = m.imports

theorem Noted.refl (m : Model) : m.Noted m := ⟨rfl, rfl, rfl, rfl⟩

theorem Noted.trans (h : m.Noted m') (k : m'.Noted m'') : m.Noted m'' :=
  ⟨k.elements.trans h.elements, k.packages.trans h.packages, k.options.trans h.options,
    k.imports.trans h.imports⟩

theorem Noted.grows (h : m.Noted m') : Grows K m m' := grows_of_elements h.elements h.options

theorem Noted.declared? (h : m.Noted m') (p : String) : m'.declared? p = m.declared? p :=
  declared?_congr h.elements p

/-! ### What stays -/

def Has (m : Model) (p : String) (c : Category) : Prop :=
  ∃ e, m.declared? p = some e ∧ e.category? = some c

theorem Grows.has (h : Grows K m m') {c : Category} (hp : m.Has p c) : m'.Has p c := by
  obtain ⟨e, he, hc⟩ := hp
  obtain ⟨e', he', hg, -⟩ := h.kept he
  exact ⟨e', he', hg.category.trans hc⟩

theorem Grows.unchanged (h : Grows K m m') (he : m'.declared? p = some e) (hk : ¬ K e.category?) :
    m.declared? p = some e := by
  rcases hp : m.declared? p with _ | x
  · exact absurd (h.fresh hp he).2.1 hk
  · obtain ⟨y, hy, hg, hc⟩ := h.kept hp
    rw [he] at hy
    cases hy
    rcases hc with rfl | hc
    · rfl
    · exact absurd (hg.category ▸ hc) hk

/-! ### Properties of all elements -/

section Each

variable {Q : String → ElementContent → Prop}

/-- A property of the paths and contents of all declared elements. -/
def Each (m : Model) (Q : String → ElementContent → Prop) : Prop :=
  ∀ p e, m.declared? p = some e → Q p e.content

theorem Each.congr (h : m.Each Q) (he : m'.elements = m.elements) : m'.Each Q :=
  fun p e hp => h p e ((declared?_congr he _).symm.trans hp)

theorem Each.update (h : m.Each Q) (hf : ∀ e, (f e).path = e.path)
    (hnew : ∀ e, m.declared? p = some e → Q p e.content → Q p (f e).content) : (m.update p f).Each Q := by
  intro q e he
  rw [declared?_update hf] at he
  split at he
  · rename_i hq
    subst hq
    obtain ⟨x, hx, rfl⟩ := Option.map_eq_some_iff.1 he
    exact hnew x hx (h q x hx)
  · exact h q e he

theorem Each.updateClass (h : m.Each Q) {f : ClassContent → ClassContent}
    (hf : ∀ c, Q p (.classType c) → Q p (.classType (f c))) : (m.updateClass p f).Each Q := by
  refine h.update (fun e => ?_) fun e _ he => ?_
  · split <;> rfl
  · split
    · rename_i c hc
      rw [hc] at he
      exact hf c he
    · exact he

theorem Each.register (h : m.Each Q) (hm : m.register package name span content annotations = .ok m')
    (hc : Q (Path.join package name) content) : m'.Each Q := by
  intro q e he
  rw [declared?_append (register_ok hm).2.1] at he
  rcases Option.or_eq_some_iff.1 he with he | ⟨-, he⟩
  · exact h q e he
  · obtain ⟨hq, he⟩ := Option.ite_none_right_eq_some.1 he
    cases he
    exact hq ▸ hc

end Each

end Model
end ModelGraph
