/-
# Models that are alike

Two models are alike if they differ in the contents of mappings, in the order in which
elements other than functions and stores were declared, in warnings and in options only.
What mappings are not part of is the same in both: types and their order, members,
functions, stores, and what names stand for.

Key definitions: `Element.outline`, `Model.Like`.
Key theorems: `Model.Like.member`, `Context.Like.resolve`, `Context.Like.candidates`.
-/
import ModelGraph.Proofs.Model.Growth
import ModelGraph.Proofs.Model.Tree
import ModelGraph.Relational.Mapping

namespace ModelGraph

open Element Option List

theorem map_eq_cases {α β : Type} {f : α → β} {o o' : Option α} (h : o'.map f = o.map f) :
    o = none ∧ o' = none ∨ ∃ a a', o = some a ∧ o' = some a' ∧ f a' = f a := by
  rcases o with _ | a <;> rcases o' with _ | a'
  · exact .inl ⟨rfl, rfl⟩
  · cases h
  · cases h
  · exact .inr ⟨a, a', rfl, rfl, Option.some.inj h⟩

namespace Element

variable {e e' : Element} {c : Category}

/-- An element, with the contents of a mapping left out. -/
def outline (e : Element) : Element :=
  match e.content with
  | .mapping _ => { e with content := .mapping {} }
  | _ => e

theorem outline_of_ne (h : e.category? ≠ some .mapping) : e.outline = e := by
  unfold outline
  split
  · rename_i x hx
    exact absurd (by rw [category?, hx]) h
  · rfl

theorem exists_mapping (h : e.category? = some .mapping) : ∃ x, e.content = .mapping x := by
  unfold category? at h
  split at h <;> cases h
  exact ⟨_, by assumption⟩

theorem category?_outline (e : Element) : e.outline.category? = e.category? := by
  unfold outline
  split
  · rename_i x hx
    rw [category?, category?, hx]
  · rfl

theorem path_outline (e : Element) : e.outline.path = e.path := by
  unfold outline
  split <;> rfl

theorem eq_of_outline (h : e'.outline = e.outline) (hc : e.category? ≠ some .mapping) : e' = e := by
  have hc' : e'.category? ≠ some .mapping := by rwa [← category?_outline, h, category?_outline]
  rwa [outline_of_ne hc, outline_of_ne hc'] at h

theorem typeKind?_outline (e : Element) : e.outline.typeKind? = e.typeKind? := by
  rw [typeKind?_eq, typeKind?_eq e, category?_outline]

theorem isOf_outline (e : Element) (c : Category) : e.outline.isOf c = e.isOf c := by
  rw [isOf, isOf, typeKind?_outline, category?_outline]

theorem category?_ne_of_isOf (h : e.isOf c = true) (hc : c ≠ .mapping) : e.category? ≠ some .mapping := by
  intro he
  unfold isOf at h
  split at h
  · rw [typeKind?_eq, he] at h
    cases h
  · rw [he] at h
    exact hc (Option.some.inj (of_decide_eq_true h)).symm

end Element

/-- Functions and stores, which are looked for in the order of their declaration. -/
def Element.isListed (e : Element) : Bool := e.category? = some .function || e.category? = some .store

namespace Model

/-- Two models that differ in mappings, in the order of elements, in warnings and in options
only. -/
structure Like (m m' : Model) : Prop where
  imports : m'.imports = m.imports
  tree : ∀ route, m'.packages.kind? route = m.packages.kind? route
  outlines : ∀ p, (m'.declared? p).map outline = (m.declared? p).map outline
  listed : m'.elements.filter isListed = m.elements.filter isListed
  length : m'.elements.length = m.elements.length
  distinct : m'.Distinct ↔ m.Distinct

variable {m m' m'' : Model} {p : String} {c : Category} {β : Type}

def under (m : Model) (o : Options) : Model := { m with options := o }

theorem like_under (m : Model) (o : Options) : m.Like (m.under o) :=
  ⟨rfl, fun _ => rfl, fun _ => rfl, rfl, rfl, Iff.rfl⟩

namespace Like

theorem refl (m : Model) : m.Like m := ⟨rfl, fun _ => rfl, fun _ => rfl, rfl, rfl, Iff.rfl⟩

theorem symm (h : m.Like m') : m'.Like m :=
  ⟨h.imports.symm, fun r => (h.tree r).symm, fun p => (h.outlines p).symm, h.listed.symm, h.length.symm,
    h.distinct.symm⟩

theorem trans (h : m.Like m') (k : m'.Like m'') : m.Like m'' :=
  ⟨k.imports.trans h.imports, fun r => (k.tree r).trans (h.tree r), fun p => (k.outlines p).trans (h.outlines p),
    k.listed.trans h.listed, k.length.trans h.length, k.distinct.trans h.distinct⟩

theorem of_noted (h : m.Noted m') : m.Like m' :=
  ⟨h.imports, fun _ => by rw [h.packages], fun p => by rw [declared?_congr h.elements],
    by rw [h.elements], by rw [h.elements], by rw [Distinct, Distinct, h.elements]⟩

/-! ### Elements -/

variable (h : m.Like m')
include h

theorem element?_outline (p : String) :
    (m'.element? p).map outline = (m.element? p).map outline := by
  unfold element?
  rcases map_eq_cases (h.outlines p) with ⟨hm, hm'⟩ | ⟨e, e', hm, hm', hout⟩ <;> rw [hm, hm']
  exact congrArg some hout

theorem element?_map {f : Element → β} (hf : ∀ e, f e.outline = f e) (p : String) :
    (m'.element? p).map f = (m.element? p).map f := by
  rcases map_eq_cases (h.element?_outline p) with ⟨hm, hm'⟩ | ⟨e, e', hm, hm', hout⟩ <;> rw [hm, hm']
  rw [map_some, map_some, ← hf e', hout, hf]

theorem element?_bind {f : Element → Option β} (hf : ∀ e, f e.outline = f e) (p : String) :
    (m'.element? p).bind f = (m.element? p).bind f := by
  rcases map_eq_cases (h.element?_map hf p) with ⟨hm, hm'⟩ | ⟨e, e', hm, hm', hfe⟩ <;> rw [hm, hm']
  exact hfe

theorem filter_declared? (hc : c ≠ .mapping) (p : String) :
    (m'.declared? p).filter (·.isOf c) = (m.declared? p).filter (·.isOf c) := by
  rcases map_eq_cases (h.outlines p) with ⟨hm, hm'⟩ | ⟨e, e', hm, hm', hout⟩ <;> rw [hm, hm']
  by_cases he : e.isOf c = true
  · rw [eq_of_outline hout (category?_ne_of_isOf he hc)]
  · have he' : ¬ e'.isOf c = true := by rwa [← isOf_outline, hout, isOf_outline]
    rw [filter_some, filter_some, if_neg he, if_neg he']

theorem find? (hc : c ≠ .mapping) (p : String) : m'.find? c p = m.find? c p := by
  rw [Model.find?, Model.find?, h.filter_declared? hc]

theorem lookup (hc : c ≠ .mapping) (p : String) (span : Span) :
    m'.lookup c p span = m.lookup c p span := by
  rw [Model.lookup, Model.lookup, h.find? hc]

theorem lookup_mapping (p : String) (span : Span) :
    (m'.lookup .mapping p span).map (·.path) = (m.lookup .mapping p span).map (·.path) := by
  have hfilter : ((m'.declared? p).filter (·.isOf .mapping)).map (·.path) =
      ((m.declared? p).filter (·.isOf .mapping)).map (·.path) := by
    rcases map_eq_cases (h.outlines p) with ⟨hm, hm'⟩ | ⟨e, e', hm, hm', hout⟩ <;> rw [hm, hm']
    have hof : e'.isOf .mapping = e.isOf .mapping := by
      rw [← isOf_outline, hout, isOf_outline]
    have hpath : e'.path = e.path := by rw [← path_outline, hout, path_outline]
    rw [filter_some, filter_some, hof]
    split
    · rw [map_some, map_some, hpath]
    · rfl
  unfold Model.lookup Model.find?
  rcases map_eq_cases hfilter with ⟨hm, hm'⟩ | ⟨e, e', hm, hm', hpath⟩ <;> rw [hm, hm']
  exact congrArg Except.ok hpath

/-! ### Types -/

theorem supers : m'.supers = m.supers := by
  funext t
  have hedges := h.element?_map (f := superEdges)
    (fun e => by unfold outline; split <;> simp_all [superEdges]) t.path
  rw [Model.supers, Model.supers]
  rcases map_eq_cases hedges with ⟨hm, hm'⟩ | ⟨e, e', hm, hm', hsupers⟩ <;> rw [hm, hm']
  exact congrArg (List.map (·.1)) hsupers

theorem order : m'.order = m.order := by
  funext t
  rw [Model.order, Model.order, h.supers, typeBound, typeBound, h.length]

theorem rawOrder : m'.rawOrder = m.rawOrder := by
  funext t
  cases t with
  | named t => rw [Model.rawOrder, Model.rawOrder, h.order]
  | function => rfl

theorem measureOf? : m'.measureOf? = m.measureOf? := by
  funext p
  have hbind := h.element?_bind (f := measure?)
    (fun e => by unfold outline; split <;> simp_all [measure?]) p
  have heq : ∀ n : Model, n.measureOf? p = (n.element? p).bind measure? := by
    intro n
    rw [Model.measureOf?]
    rcases n.element? p with _ | e
    · rfl
    · rfl
  rw [heq, heq, hbind]

theorem isSubType : m'.isSubType = m.isSubType := by
  funext s t
  rw [Model.isSubType, Model.isSubType, h.measureOf?, h.rawOrder]

theorem commonSuper : m'.commonSuper = m.commonSuper := by
  funext ts
  simp only [Model.commonSuper, h.rawOrder, h.isSubType]

theorem class? : m'.class? = m.class? := by
  funext p
  exact h.element?_bind (fun e => by unfold outline; split <;> simp_all [Element.class?]) p

theorem classOrder : m'.classOrder = m.classOrder := by
  funext t
  simp only [Model.classOrder, h.order, h.class?]

theorem property : m'.property = m.property := by
  funext t name span
  rw [Model.property, Model.property, h.classOrder]

theorem member : m'.member = m.member := by
  funext t name arity span
  rw [Model.member, Model.member, h.classOrder, h.order]

theorem datedMember? : m'.datedMember? = m.datedMember? := by
  funext t name
  rw [Model.datedMember?, Model.datedMember?, h.classOrder]

/-! ### Dates -/

theorem annotations (p : String) :
    (m'.element? p).map (·.annotations) = (m.element? p).map (·.annotations) :=
  h.element?_map (fun e => by unfold outline; split <;> rfl) p

theorem declaredTemporal : m'.declaredTemporal = m.declaredTemporal := by
  funext t
  unfold Model.declaredTemporal
  rcases map_eq_cases (h.annotations t.path) with ⟨hm, hm'⟩ | ⟨e, e', hm, hm', hann⟩ <;> rw [hm, hm']
  simp only [hann]

theorem temporal : m'.temporal = m.temporal := by
  funext t
  unfold Model.temporal
  rw [h.order]
  refine if_congr Iff.rfl (congrArg (Option.getD · _) (congrArg (List.findSome? · _) (funext fun s => ?_))) rfl
  rcases map_eq_cases (h.annotations s.path) with ⟨hm, hm'⟩ | ⟨e, e', hm, hm', hann⟩ <;> rw [hm, hm']
  simp only [hann]

theorem rawTemporal : m'.rawTemporal = m.rawTemporal := by
  funext t
  cases t with
  | named t => rw [Model.rawTemporal, Model.rawTemporal, h.declaredTemporal]
  | function => rfl

theorem sourceTemporal : m'.sourceTemporal = m.sourceTemporal := by
  funext q t
  unfold Model.sourceTemporal
  rw [h.declaredTemporal, h.rawTemporal]
  rcases map_eq_cases (h.element?_outline q.owner) with ⟨hm, hm'⟩ | ⟨e, e', hm, hm', hout⟩ <;> rw [hm, hm']
  by_cases he : e.category? = some .mapping
  · have he' : e'.category? = some .mapping := by
      rw [← category?_outline, hout, category?_outline, he]
    obtain ⟨x, hx⟩ := exists_mapping he
    obtain ⟨x', hx'⟩ := exists_mapping he'
    simp only [hx, hx']
  · rw [eq_of_outline hout he]

/-! ### Functions and stores -/

theorem functionsAt : m'.functionsAt = m.functionsAt := by
  funext key
  -- a choice among the elements that takes listed ones only sees no difference
  have hchosen : ∀ {f : Element → Option Candidate}, (∀ e, e.isListed = false → f e = none) →
      m'.elements.filterMap f = m.elements.filterMap f := by
    intro f hf
    have hlisted : ∀ n : Model, n.elements.filterMap f = (n.elements.filter isListed).filterMap f := by
      intro n
      rw [filterMap_filter]
      refine filterMap_congr fun e _ => ?_
      cases he : e.isListed
      · rw [hf e he]
        rfl
      · rfl
    rw [hlisted, hlisted, h.listed]
  refine hchosen fun e he => ?_
  obtain ⟨name, path, span, annotations, content⟩ := e
  cases content <;> first | rfl | cases he

theorem candidatesAt : m'.candidatesAt = m.candidatesAt := by
  funext key
  rw [Model.candidatesAt, Model.candidatesAt, h.functionsAt]

theorem database? : m'.database? = m.database? := by
  funext p
  rw [Model.database?, Model.database?]
  rcases map_eq_cases (h.outlines p) with ⟨hm, hm'⟩ | ⟨e, e', hm, hm', hout⟩ <;> rw [hm, hm']
  by_cases he : e.category? = some .mapping
  · have he' : e'.category? = some .mapping := by
      rw [← category?_outline, hout, category?_outline, he]
    obtain ⟨x, hx⟩ := exists_mapping he
    obtain ⟨x', hx'⟩ := exists_mapping he'
    obtain ⟨name, path, span, annotations, content⟩ := e
    obtain ⟨name', path', span', annotations', content'⟩ := e'
    cases hx
    cases hx'
    rfl
  · rw [eq_of_outline hout he]

theorem table? : m'.table? = m.table? := by
  have hincludes : m'.databaseIncludes = m.databaseIncludes := by
    funext p
    rw [databaseIncludes, databaseIncludes, h.database?]
  have hown : m'.ownTable? = m.ownTable? := by
    funext schema table p
    rw [ownTable?, ownTable?, h.database?]
  funext p schema table
  rw [Model.table?, Model.table?, hincludes, hown, h.length]

end Like
end Model

/-! ### Names -/

namespace Context

/-- The same element as a place to look names up from, in models that are alike. -/
structure Like (c c' : Context) : Prop where
  model : c.model.Like c'.model
  element : c'.element = c.element
  imports : c'.imports = c.imports

variable {m m' : Model} {c c' : Context} {category : Category}

def under (c : Context) (o : Options) : Context := { c with model := c.model.under o }

theorem like_under (c : Context) (o : Options) : c.Like (c.under o) := ⟨c.model.like_under o, rfl, rfl⟩

theorem like_of (h : m.Like m') (path : String) : (Context.of m path).Like (Context.of m' path) where
  model := h
  element := rfl
  imports := by rw [Context.of, Context.of, Model.importsOf, Model.importsOf, h.imports]

theorem search_congr {α : Type} {get get' : String → Result α} (h : c.Like c') (hget : ∀ p, get' p = get p)
    (path : String) (span : Span) : c'.search path span get' = c.search path span get := by
  rw [funext hget, search, search, h.imports]

theorem search_map {α β : Type} {get : String → Result α} (f : α → β) (path : String) (span : Span) :
    (c.search path span get).map f = c.search path span fun p => (get p).map f := by
  unfold search
  split
  · rfl
  generalize hhits : (c.imports.filterMap _ : List (String × α)) = hits
  generalize hfound : (c.imports.filterMap _ : List (String × β)) = found
  have heq : found = hits.map fun x => (x.1, f x.2) := by
    rw [← hhits, ← hfound, map_filterMap]
    refine filterMap_congr fun package _ => ?_
    simp only
    rcases get (package ++ Path.separator ++ path) with _ | a
    · rfl
    · rfl
  subst heq
  rcases hits with _ | ⟨⟨full, a⟩, _ | ⟨hit, hits⟩⟩
  · rfl
  · rfl
  · simp [failAt, Except.map, Function.comp_def]

namespace Like

section

variable (h : c.Like c')
include h

theorem resolve (hc : category ≠ .mapping) : c'.resolve category = c.resolve category := by
  funext path span
  exact search_congr h (fun p => h.model.lookup hc p span) path span

theorem resolve_mapping (path : String) (span : Span) :
    (c'.resolve .mapping path span).map (·.path) = (c.resolve .mapping path span).map (·.path) := by
  rw [Context.resolve, Context.resolve, search_map, search_map]
  exact search_congr h (fun p => h.model.lookup_mapping p span) path span

theorem resolveType : c'.resolveType = c.resolveType := by
  funext path span
  rw [Context.resolveType, Context.resolveType, h.resolve (by decide)]

theorem resolveClass : c'.resolveClass = c.resolveClass := by
  funext path span
  rw [Context.resolveClass, Context.resolveClass, h.resolve (by decide)]

theorem resolveGeneric : c'.resolveGeneric = c.resolveGeneric := by
  funext path span
  rw [Context.resolveGeneric, Context.resolveGeneric, h.resolveType]

theorem resolveEnumValue : c'.resolveEnumValue = c.resolveEnumValue := by
  funext path name enumSpan span
  rw [Context.resolveEnumValue, Context.resolveEnumValue, h.resolve (by decide)]

theorem resolveElement (path : String) (span : Span) :
    (c'.resolveElement path span).map outline = (c.resolveElement path span).map outline := by
  rw [Context.resolveElement, Context.resolveElement, search_map, search_map]
  refine search_congr h (fun p => ?_) path span
  split
  · rfl
  · rcases map_eq_cases (h.model.element?_outline p) with ⟨hm, hm'⟩ | ⟨e, e', hm, hm', hout⟩ <;> rw [hm, hm']
    exact congrArg Except.ok hout

theorem isPackage : c'.isPackage = c.isPackage := by
  funext path
  have hkind := h.model.tree (Path.split path)
  unfold Context.isPackage
  rcases map_eq_cases hkind with ⟨hm, hm'⟩ | ⟨t, t', hm, hm', hsame⟩ <;> rw [hm, hm']
  have hfolder : t'.isFolder = t.isFolder := by
    cases t <;> cases t' <;> first | rfl | cases hsame
  simp only [hfolder]

theorem candidates : c'.candidates = c.candidates := by
  funext name span
  rw [Context.candidates, Context.candidates, h.model.candidatesAt, h.imports]

end

mutual

theorem resolveArguments (h : c.Like c') : ∀ t : TypeExpr, c'.resolveArguments t = c.resolveArguments t
  | .mk _ args _ => by
    rw [Context.resolveArguments]
    exact resolveAll h args

theorem resolveAll (h : c.Like c') : ∀ ts : List TypeExpr, c'.resolveAll ts = c.resolveAll ts
  | [] => rfl
  | t :: ts => by
    rw [Context.resolveAll, Context.resolveAll, h.resolveGeneric, resolveArguments h t, resolveAll h ts]

end

theorem resolveTyped (h : c.Like c') : c'.resolveTyped = c.resolveTyped := by
  funext path expr span
  rw [Context.resolveTyped, Context.resolveTyped, h.resolveGeneric]
  cases expr with
  | none => rfl
  | some t => simp only [h.resolveArguments t]

theorem parameter (h : c.Like c') : c'.parameter = c.parameter := by
  funext a
  rw [Context.parameter, Context.parameter, h.resolveTyped]

end Like
end Context
end ModelGraph
