/-
# What is checked of property mappings

The class mappings of a mapping are checked right after they are linked, in the order of
the document. Then those of the mappings before it are linked as well, and those after it
are not: an operation of a later mapping does not lead on to its parameters yet. Linking
changes neither the ids of class mappings nor what instances are built from, so that a
check sees the sources that the finished model has, as far as they are linked.

What is checked are the class mappings of a mapping itself, not the main set and the
aggregate sets inside of one.

Key definitions: `SetImplementation.origin?`, `Model.SourceOf`.
Key theorems: `Document.Trace.linked_at`, `Model.mem_sourceTypes`, `Document.top_level_sets_checked`.
-/
import ModelGraph.Proofs.Mapping.Closure

namespace ModelGraph

open Model Build Relation Search List Option Result SetImplementation Pass

variable {p : PropertyMapping} {a : MappingDecl} {b : List SetImplementation} {path id : String}
  {linked : String → Prop} {n : Model} {before after : List MappingDecl} {x : Mapping}

/-! ### What linking keeps -/

namespace SetImplementation

/-- Two class mappings with one id that build from one type. -/
structure Alike (s s' : SetImplementation) : Prop where
  id : s'.id = s.id
  origin : s'.origin? = s.origin?

theorem alikes_refl (l : List SetImplementation) : Forall₂ Alike l l :=
  forall₂_same.2 fun _ _ => ⟨rfl, rfl⟩

theorem alikes_trans {a c : List SetImplementation} (h : Forall₂ Alike a b)
    (h' : Forall₂ Alike b c) : Forall₂ Alike a c := by
  induction h generalizing c with
  | nil => exact h'
  | cons hab _ ih =>
    rcases h' with _ | ⟨hbc, h'⟩
    exact .cons ⟨hbc.id.trans hab.id, hbc.origin.trans hab.origin⟩ (ih h')

theorem alikes_zipIdx {a : List SetImplementation} (h : Forall₂ Alike a b) (i : Nat) :
    Forall₂ (fun x y => x.1.Alike y.1 ∧ x.2 = y.2) (a.zipIdx i) (b.zipIdx i) := by
  induction h generalizing i with
  | nil => exact .nil
  | cons hab _ ih => exact .cons ⟨hab, rfl⟩ (ih (i + 1))

end SetImplementation

theorem Model.linkSet_keeps {m : Model} : ∀ {s s' : SetImplementation}, m.linkSet path s = .ok s' →
    s.Alike s' ∧ s'.base.className = s.base.className ∧ s'.base.root = s.base.root
  | .instances b source filter, s', h => by
    cases h
    exact ⟨⟨rfl, rfl⟩, rfl, rfl⟩
  | .relational b database table isDistinct, s', h => by
    cases h
    exact ⟨⟨rfl, rfl⟩, rfl, rfl⟩
  | .operation b operator function parameters validation, s', h => by
    obtain ⟨linked, -, h⟩ := bind_eq_ok.1 h
    cases h
    exact ⟨⟨rfl, rfl⟩, rfl, rfl⟩
  | .aggregation b main aggregates, s', h => by
    obtain ⟨main', hmain, h⟩ := bind_eq_ok.1 h
    obtain ⟨aggregates', -, h⟩ := bind_eq_ok.1 h
    cases h
    exact ⟨⟨rfl, (linkSet_keeps hmain).1.origin⟩, rfl, rfl⟩

namespace Model

variable {m n : Model} {path : String}

/-- Two models with the same includes, and with class mappings that are alike. -/
def SameSets (n m : Model) : Prop := ∀ k, Option.Rel
  (fun x y : Mapping => x.includes = y.includes ∧ Forall₂ SetImplementation.Alike x.sets y.sets)
  (n.mapping? k) (m.mapping? k)

theorem sameSets_of_eq (h : ∀ k, m.mapping? k = n.mapping? k) : SameSets n m := by
  intro k
  rw [h]
  rcases n.mapping? k with _ | x
  · exact .none
  · exact .some ⟨rfl, alikes_refl _⟩

theorem SameSets.symm (h : SameSets n m) : SameSets m n := by
  intro k
  have hk := h k
  revert hk
  rcases n.mapping? k with _ | x <;> rcases m.mapping? k with _ | y <;> rintro ⟨⟩
  · exact .none
  · rename_i hxy
    exact .some ⟨hxy.1.symm, (hxy.2.imp fun _ _ hab => ⟨hab.id.symm, hab.origin.symm⟩).flip⟩

theorem SameSets.trans {l : Model} (h : SameSets n m) (h' : SameSets m l) : SameSets n l := by
  intro k
  have hk := h k
  have hk' := h' k
  revert hk hk'
  rcases n.mapping? k with _ | x <;> rcases m.mapping? k with _ | y <;> rcases l.mapping? k with _ | z <;>
    rintro ⟨⟩ ⟨⟩
  · exact .none
  · rename_i hxy hyz
    exact .some ⟨hxy.1.trans hyz.1, alikes_trans hxy.2 hyz.2⟩

end Model

theorem MappingDecl.linkStep_sameSets (a : MappingDecl) (n : Model) :
    a.linkStep.Ensures n fun _ n' => SameSets n n' := by
  refine a.linkStep_table.mono ?_
  rintro _ n' ⟨sets, assocMappings, tests, hsets, htable, _⟩ k
  rw [htable]
  split
  · rename_i hk
    subst hk
    rcases hx : n.mapping? a.header.path with _ | x
    · exact .none
    · refine .some ⟨rfl, ?_⟩
      rw [setsOf_map_snd hx, mapM_eq_ok] at hsets
      exact hsets.imp fun _ _ h => (linkSet_keeps h).1
  · exact sameSets_of_eq (fun _ => rfl) k

/-! ### Class mappings by reference and by id -/

namespace Model

variable {m n : Model} {path id : String} {r r' : SetRef} {s s' : SetImplementation} {t : TypeRef}

def setRefs (n : Model) : List SetRef := n.elements.flatMap fun e => (n.setsOf e.path).map (·.1)

theorem length_setRefs (n : Model) : n.setRefs.length = n.setCount := by
  simp [setRefs, setCount]

theorem mem_setRefs (h : n.setAt? r = some s) : r ∈ n.setRefs := by
  obtain ⟨x, hx, -⟩ := bind_eq_some_iff.1 h
  obtain ⟨e, he, -⟩ := mapping?_eq_some.1 hx
  refine mem_flatMap.2 ⟨e, mem_of_declared? he, mem_map.2 ⟨(r, s), ?_, rfl⟩⟩
  exact mem_setsOf.2 ⟨(path_of_declared? he).symm, h⟩

theorem setAt?_of_setById? (h : n.setById? path id = some (r, s)) : n.setAt? r = some s := by
  obtain ⟨k, -, hk⟩ := mem_flatMap.1 (mem_of_find?_eq_some h)
  exact (mem_setsOf.1 hk).2

theorem SameSets.setAt? (h : SameSets n m) (hs : m.setAt? r = some s') :
    ∃ s, n.setAt? r = some s ∧ s.Alike s' := by
  obtain ⟨y, hy, hs⟩ := bind_eq_some_iff.1 hs
  have hk := h r.mapping
  rw [hy] at hk
  rcases hx : n.mapping? r.mapping with _ | x <;> rw [hx] at hk <;> cases hk
  rename_i hsets
  replace hsets := hsets.2
  obtain ⟨hlt, rfl⟩ := List.getElem?_eq_some_iff.1 hs
  have hlt' : r.index < x.sets.length := hsets.length_eq ▸ hlt
  exact ⟨x.sets.get ⟨r.index, hlt'⟩, by simp [setAt?, hx], hsets.get hlt' hlt⟩

theorem SameSets.includesOf (h : SameSets n m) : n.includesOf = m.includesOf := by
  funext k
  have hk := h k
  unfold Model.includesOf
  revert hk
  rcases n.mapping? k with _ | x <;> rcases m.mapping? k with _ | y <;> rintro ⟨⟩
  · rfl
  · rename_i hxy
    simp only [hxy.1]

theorem SameSets.setsOf (h : SameSets n m) (k : String) :
    Forall₂ (fun a b => a.1 = b.1 ∧ a.2.Alike b.2) (n.setsOf k) (m.setsOf k) := by
  have hk := h k
  unfold Model.setsOf
  revert hk
  rcases n.mapping? k with _ | x <;> rcases m.mapping? k with _ | y <;> rintro ⟨⟩
  · exact .nil
  · rename_i hxy
    rw [forall₂_map_left_iff, forall₂_map_right_iff]
    exact (alikes_zipIdx hxy.2 0).imp fun a b hab =>
      ⟨congrArg (SetRef.mk k) hab.2, hab.1⟩

/-- A look-up by id in the one model has its counterpart in the other, if both see the
same mappings in the same order. -/
theorem SameSets.setById? (h : SameSets n m) (hi : n.includedMappings path = m.includedMappings path)
    (hs : m.setById? path id = some (r, s')) : ∃ s, n.setById? path id = some (r, s) ∧ s.Alike s' := by
  have all : ∀ ks : List String, Forall₂ (fun a b => a.1 = b.1 ∧ a.2.Alike b.2)
      (ks.flatMap n.setsOf) (ks.flatMap m.setsOf) := by
    intro ks
    induction ks with
    | nil => exact .nil
    | cons k ks ih => exact rel_append (h.setsOf k) ih
  have found : ∀ {as bs : List (SetRef × SetImplementation)},
      Forall₂ (fun a b => a.1 = b.1 ∧ a.2.Alike b.2) as bs →
      bs.find? (fun b => b.2.id = id) = some (r, s') →
      ∃ s, as.find? (fun a => a.2.id = id) = some (r, s) ∧ s.Alike s' := by
    intro as bs hab
    induction hab with
    | nil => exact fun h => nomatch h
    | @cons a b as bs hab _ ih =>
      intro hfind
      rw [find?_cons] at hfind
      split at hfind
      · rename_i hid
        cases hfind
        refine ⟨a.2, ?_, hab.2⟩
        rw [find?_cons_of_pos (by simpa [hab.2.id] using hid)]
        exact congrArg some (Prod.ext hab.1 rfl)
      · rename_i hid
        rw [find?_cons_of_neg (by simpa [hab.2.id] using hid)]
        exact ih hfind
  refine found ?_ hs
  rw [allSets, hi]
  exact all _

/-! ### Sources -/

/-- The types that instances of a class mapping are built from. An operation leads on to
its parameters if its mapping is among the `linked` ones. -/
inductive SourceOf (m : Model) (linked : String → Prop) : SetRef → TypeRef → Prop
  | instances {r : SetRef} {s : SetImplementation} {t : TypeRef} : m.setAt? r = some s →
      s.origin? = some t → SourceOf m linked r t
  | operation {r r' : SetRef} {s : SetImplementation} {base : SetBase} {operator function id : String}
      {parameters : List (String × Option SetRef)} {validation : Option Expr} {t : TypeRef} :
      linked r.mapping → m.setAt? r = some s →
      s.core = .operation base operator function parameters validation → (id, some r') ∈ parameters →
      SourceOf m linked r' t → SourceOf m linked r t

/-- An operation has a class mapping as a parameter. -/
def Leads (n : Model) (r r' : SetRef) : Prop :=
  ∃ s base operator function id parameters validation, n.setAt? r = some s ∧
    s.core = .operation base operator function parameters validation ∧ (id, some r') ∈ parameters ∧
    (n.setAt? r').isSome = true

theorem mem_sourceTypesWithin {k : Nat} (h : Steps n.Leads k r r') : ∀ {s s' : SetImplementation} {depth : Nat},
    n.setAt? r = some s → n.setAt? r' = some s' → s'.origin? = some t → k < depth →
      t ∈ n.sourceTypesWithin depth s := by
  induction h with
  | refl a =>
    intro s s' depth hs hs' ht hk
    cases hs.symm.trans hs'
    obtain ⟨depth, rfl⟩ : ∃ e, depth = e + 1 := ⟨depth - 1, by omega⟩
    unfold origin? at ht
    unfold sourceTypesWithin
    split at ht
    · rename_i heq
      rw [heq]
      simpa using ht
    · cases ht
  | @head k a b c hab _ ih =>
    intro s s' depth hs hs' ht hk
    obtain ⟨depth, rfl⟩ : ∃ e, depth = e + 1 := ⟨depth - 1, by omega⟩
    obtain ⟨x, base, operator, function, id, parameters, validation, hx, hcore, hmem, hsome⟩ := hab
    cases hx.symm.trans hs
    obtain ⟨y, hy⟩ := isSome_iff_exists.1 hsome
    unfold sourceTypesWithin
    rw [hcore]
    refine mem_distinct.2 (mem_flatMap.2 ⟨(id, some b), hmem, ?_⟩)
    simpa [hy] using ih hy hs' ht (by omega : k < depth)

/-- **The bound on operations within operations is enough.** -/
theorem mem_sourceTypes (h : ReflTransGen n.Leads r r') (hs : n.setAt? r = some s) (hs' : n.setAt? r' = some s')
    (ht : s'.origin? = some t) : t ∈ n.sourceTypes s := by
  have hwithin : ReflTransGen (fun a b => n.Leads a b ∧ b ∈ n.setRefs) r r' :=
    ReflTransGen.mono (fun a b hab => ⟨hab, by
      obtain ⟨_, _, _, _, _, _, _, -, -, -, hsome⟩ := hab
      obtain ⟨y, hy⟩ := isSome_iff_exists.1 hsome
      exact mem_setRefs hy⟩) _ _ h
  obtain ⟨k, hk, hsteps⟩ := exists_steps n.setCount n.setRefs r (Nat.le_of_eq n.length_setRefs) hwithin
  exact mem_sourceTypesWithin hsteps hs hs' ht (by omega)

theorem SourceOf.leads (h : m.SourceOf linked r t) (hsame : SameSets n m)
    (hlinked : ∀ q, linked q → n.mapping? q = m.mapping? q) : (n.setAt? r).isSome = true ∧
      ∃ r' s', ReflTransGen n.Leads r r' ∧ n.setAt? r' = some s' ∧ s'.origin? = some t := by
  induction h with
  | instances hs ht =>
    obtain ⟨s, hs, halike⟩ := hsame.setAt? hs
    exact ⟨by simp [hs], _, s, .refl, hs, halike.origin ▸ ht⟩
  | operation hl hs hcore hmem _ ih =>
    obtain ⟨hsome, r', s', hleads, hs', ht⟩ := ih
    rw [setAt?, ← hlinked _ hl, ← setAt?] at hs
    exact ⟨by simp [hs], r', s', .head ⟨_, _, _, _, _, _, _, hs, hcore, hmem, hsome⟩ hleads, hs', ht⟩

end Model

/-! ### The rules -/

/-- The types that an expression for a property is held against: for a property of a class
what its class mapping is built from, for a mapped enumeration the type of the first
source value, and else the type of the property. -/
inductive Model.Expects (m : Model) (linked : String → Prop) (path : String) (p : PropertyMapping) :
    RawType → Prop
  | routed {r : SetRef} {s : SetImplementation} {t : TypeRef} : p.property.type.raw.class?.isSome = true →
      m.setById? path p.targetId = some (r, s) → m.SourceOf linked r t → Expects m linked path p (.named t)
  | enumerated {e : EnumerationMapping} {v : EnumValueMapping} {source : SourceValue} {t : TypeRef} :
      p.property.type.raw.class?.isSome = false → p.enumMapping = some e → e.values.head? = some v →
      v.sources.head? = some source → source.typeRef? = some t → Expects m linked path p (.named t)
  | declared : p.property.type.raw.class?.isSome = false → p.enumMapping = none →
      Expects m linked path p p.property.type.raw

/-- A column of the main table whose type can be read as that of a primitive property. -/
def Relational.ColumnFits (main : TableRef) (p : PropertyMapping) (c : ColumnRef) : Prop :=
  c.table.same main = true ∧ ∀ t found, p.property.type.raw = .named t → t.kind = .primitive →
    primitiveOf c.column.type = some found → compatible found t.name = true

theorem Relational.columnFits_of_check {main : TableRef} {c : ColumnRef}
    (h : checkProperty id main p = .ok ()) (hc : p.column = some c) : ColumnFits main p c := by
  unfold checkProperty at h
  rw [hc] at h
  simp only at h
  split at h
  · cases h
  rename_i hsame
  refine ⟨by simpa using hsame, fun t found ht hk hfound => ?_⟩
  rw [ht, hfound] at h
  simp only [hk] at h
  split at h
  · cases h
  · rename_i hfit
    simpa using hfit

theorem Model.fits_of_checkProperty {last : Expr}
    (h : n.checkProperty path id p = .ok ()) (hlast : p.transform.bind Expr.lastOfBody? = some last) :
    p.property.multiplicity.subsumes (if p.explodes then .zeroMany else last.multiplicity) = true ∧
      ∀ t ∈ n.expectedTypes path p, n.isSubType last.raw t = true ∨ n.isSubType t last.raw = true := by
  unfold checkProperty at h
  rw [hlast] at h
  simp only at h
  split at h
  · cases h
  rename_i hmisfit
  have hall : ∀ t ∈ n.expectedTypes path p, n.isSubType last.raw t = true ∨ n.isSubType t last.raw = true := by
    intro t ht
    have := find?_eq_none.1 hmisfit t ht
    simp only [Bool.and_eq_true, Bool.not_eq_true', not_and, Bool.not_eq_false] at this
    by_cases hs : n.isSubType last.raw t = true
    · exact .inl hs
    · exact .inr (this (by simpa using hs))
  refine ⟨?_, hall⟩
  by_contra hsub
  rw [if_neg hsub] at h
  cases h

namespace Document

variable {d : Document} {o : Options} {m : Model}

/-- A mapping is linked in a model with class mappings alike, and what comes of it and of the
mappings before it stays. -/
theorem Trace.linking_at (t : d.Trace o m) (hd : d.mappings = before ++ a :: after) :
    ∃ n₀ n, a.linkStep n₀ = .ok ((), n) ∧ d.At o "mappings.link" (before ++ [a]).length n ∧
      (∀ q ∈ (before ++ [a]).map (·.header.path), n.mapping? q = m.mapping? q) ∧ SameSets n₀ n ∧
      SameSets n m := by
  have hrun := t.linkMappings
  rw [hd, append_cons, each_append] at hrun
  obtain ⟨n, hbefore, hafter⟩ := hrun
  obtain ⟨n₀, -, hstep⟩ := each_append.1 hbefore
  obtain ⟨n', hstep, ⟨⟩⟩ := each_cons.1 hstep
  have hsplit := hd.trans (append_cons before a after)
  have hat : d.At o "mappings.link" (before ++ [a]).length n :=
    t.mappedAt.each rfl (by rw [hsplit, take_left]; exact hbefore)
  have hnodup := t.paths_nodup
  rw [mappingPaths, hsplit, map_append] at hnodup
  refine ⟨n₀, n, hstep, hat, fun q hq => ?_, a.linkStep_sameSets _ _ _ hstep, ?_⟩
  · have hq' : q ∉ after.map (·.header.path) := fun h => (nodup_append.1 hnodup).2.2 q hq q h rfl
    rw [t.final_mapping?, linkStep_other.each hq' hafter]
  · have h : SameSets n t.linked := ensures_each_keeps (sameSets_of_eq fun _ => rfl)
      (fun a _ n' hn' => (a.linkStep_sameSets n').mono fun _ _ h => hn'.trans h) _ _ hafter
    exact h.trans (sameSets_of_eq t.final_mapping?)

/-- **The model in which the class mappings of a mapping are checked.** The mappings up to
that one are as they will be, and the others have class mappings alike. -/
theorem Trace.linked_at (t : d.Trace o m)
    (hd : d.mappings = before ++ a :: after) (hx : m.mapping? a.header.path = some x) :
    ∃ n, d.At o "mappings.link" (before ++ [a]).length n ∧
      (∀ q ∈ (before ++ [a]).map (·.header.path), n.mapping? q = m.mapping? q) ∧ SameSets n m ∧
      ∀ s ∈ x.sets, n.checkSet a.header.path s = .ok () := by
  obtain ⟨n₀, n, hstep, hat, hkept, -, hsame⟩ := t.linking_at hd
  refine ⟨n, hat, hkept, hsame, fun s hs => ?_⟩
  obtain ⟨sets, assocMappings, tests, hsets, htable, hcheck⟩ := a.linkStep_table _ _ hstep
  have hxa := hkept a.header.path (by simp)
  rw [hx, htable, if_pos rfl] at hxa
  obtain ⟨y, -, rfl⟩ := map_eq_some_iff.1 hxa
  exact hcheck s hs

theorem Trace.sets_linked (t : d.Trace o m) (ha : a ∈ d.mappings) (hx : m.mapping? a.header.path = some x) :
    ∃ n, SameSets n m ∧ ((n.setsOf a.header.path).map (·.2)).mapM (n.linkSet a.header.path) = .ok x.sets := by
  obtain ⟨before, after, hd⟩ := append_of_mem ha
  obtain ⟨n₀, n, hstep, -, hkept, hsame₀, hsame⟩ := t.linking_at hd
  obtain ⟨sets, assocMappings, tests, hsets, htable, -⟩ := a.linkStep_table _ _ hstep
  have hxa := hkept a.header.path (by simp)
  rw [hx, htable, if_pos rfl] at hxa
  obtain ⟨y, -, rfl⟩ := map_eq_some_iff.1 hxa
  exact ⟨n₀, hsame₀.trans hsame, hsets⟩

theorem Trace.mem_expectedTypes (t : d.Trace o m) {u : RawType}
    (hsame : SameSets n m) (hlinked : ∀ q, linked q → n.mapping? q = m.mapping? q)
    (hu : m.Expects linked a.header.path p u) : u ∈ n.expectedTypes a.header.path p := by
  unfold expectedTypes
  cases hu with
  | routed hclass hset hsource =>
    have hn : n.Linked := fun x y hxy => by
      unfold Includes at hxy
      rw [hsame.includesOf] at hxy
      obtain ⟨z, hz⟩ := has_mapping.1 (t.linked_final x y hxy)
      have hy := hsame y
      rw [hz] at hy
      rcases hx : n.mapping? y with _ | x <;> rw [hx] at hy
      · cases hy
      · exact has_mapping.2 ⟨x, hx⟩
    -- Both models see the same mappings, though they differ in their bounds.
    have hincluded := hn.includedMappings_eq t.linked_final hsame.includesOf a.header.path
    obtain ⟨s, hs, -⟩ := hsame.setById? hincluded hset
    obtain ⟨-, r', s', hleads, hs', ht⟩ := hsource.leads hsame hlinked
    have hmem := mem_sourceTypes hleads (setAt?_of_setById? hs) hs' ht
    simp only [hclass, hs]
    exact mem_map_of_mem hmem
  | enumerated hclass henum hvalue hsource htype =>
    simp [hclass, henum, hvalue, hsource, htype]
  | declared hclass henum =>
    simp [hclass, henum]

/-- **The class mappings of a mapping are checked, property by property.** In an accepted
document, take a mapping and the mappings before it in the document. For each of its own
class mappings from instances, each expression for a property has a multiplicity that the
property allows for, and a type that is related to every expected one, up or down the
class hierarchy; sources of a class are those that operations of the mapping itself and
of the mappings before it lead to. For each of its own relational class mappings, each
column is of the main table and of a type that fits. -/
theorem top_level_sets_checked (h : (d.build o).result = .ok m) {before after : List MappingDecl}
    {a : MappingDecl} {x : Mapping} (hd : d.mappings = before ++ a :: after)
    (hx : m.mapping? a.header.path = some x) :
    (∀ b source filter, .instances b source filter ∈ x.sets → ∀ p ∈ b.properties, ∀ last,
      p.transform.bind Expr.lastOfBody? = some last →
        p.property.multiplicity.subsumes (if p.explodes then .zeroMany else last.multiplicity) = true ∧
        ∀ t, m.Expects (· ∈ (before ++ [a]).map (·.header.path)) a.header.path p t →
          m.isSubType last.raw t = true ∨ m.isSubType t last.raw = true) ∧
    ∀ b database main isDistinct, .relational b database main isDistinct ∈ x.sets → ∀ p ∈ b.properties,
      ∀ c, p.column = some c → Relational.ColumnFits main p c := by
  obtain ⟨t⟩ := exists_trace h
  obtain ⟨n, hat, hlinked, hsame, hchecked⟩ := t.linked_at hd hx
  have ha : a ∈ d.mappings := by rw [hd]; exact mem_append_right _ (.head _)
  have subtype {u v : RawType} (huv : n.isSubType u v = true) : m.isSubType u v = true :=
    (hat.grows_any h).isSubType hat.tidy huv
  refine ⟨fun b source filter hs p hp last hlast => ?_, fun b database main isDistinct hs p hp c hc => ?_⟩
  · have hcheck := Result.forM_eq_ok.1 (hchecked _ hs) p hp
    obtain ⟨hmultiplicity, htypes⟩ := fits_of_checkProperty hcheck hlast
    refine ⟨hmultiplicity, fun u hu => ?_⟩
    exact (htypes u (t.mem_expectedTypes hsame hlinked hu)).imp subtype subtype
  · exact Relational.columnFits_of_check (Result.forM_eq_ok.1 (hchecked _ hs) p hp) hc

/-- A class with a property of its own type, mapped through an operation on its only
class mapping from instances. -/
def routedClass : Document :=
  { classes :=
      [{ header := { package := "m", name := "S" }
         properties := [member "k" "String", member "s" "m::S"] },
       { header := { package := "m", name := "P" }
         properties := [member "n" "String", member "p" "m::P"] }]
    mappings := [mapping] }
where
  member (name type : String) : PropertyDecl :=
    { name, typeName := type, bounds := { lower := 1, upper := some 1 } }
  value (name source target : String) : PropertyMappingDecl :=
    { tag := "purePropertyMapping"
      property := { className := "m::P", property := name }
      target
      transform := some (.mk { tag := "lambda" } [] [.mk { tag := "property", property := source }
        [.mk { tag := "var", name := "src" } [] [] [] []] [] [] []] [] []) }
  mapping : MappingDecl :=
    { header := { package := "m", name := "M" }
      classMappings :=
        [.mk { tag := "pureInstance", className := "m::P", id := "i", srcClass := "m::S",
               properties := [value "n" "k" "", value "p" "s" "u"] } none [],
         .mk { tag := "operation", className := "m::P", id := "u", root := true,
               operation := "ROUTER_UNION", parameters := ["i"] } none []] }
  /-- The mapped properties of class mappings with their targets and the types of their
  expressions. -/
  found (sets : List SetImplementation) : List (List (String × String × Option String)) :=
    sets.map fun s => s.base.properties.map fun p =>
      (p.property.name, p.targetId, (p.transform.bind Expr.lastOfBody?).map (·.raw.path))

theorem routedClass_checked : ∃ m x, (routedClass.build {}).result = .ok m ∧
    m.mapping? routedClass.mapping.header.path = some x ∧
    routedClass.found x.sets = [[("n", "", some "String"), ("p", "u", some "m::S")], []] ∧
    (∀ b source filter, .instances b source filter ∈ x.sets → ∀ p ∈ b.properties, ∀ last,
      p.transform.bind Expr.lastOfBody? = some last →
        p.property.multiplicity.subsumes (if p.explodes then .zeroMany else last.multiplicity) = true ∧
        ∀ t, m.Expects (· ∈ [routedClass.mapping.header.path]) routedClass.mapping.header.path p t →
          m.isSubType last.raw t = true ∨ m.isSubType t last.raw = true) ∧
    ∀ b database main isDistinct, .relational b database main isDistinct ∈ x.sets → ∀ p ∈ b.properties,
      ∀ c, p.column = some c → Relational.ColumnFits main p c := by
  obtain ⟨m, hok, x, hx, h⟩ : ∃ m, (routedClass.build {}).result = .ok m ∧
      ∃ x, m.mapping? routedClass.mapping.header.path = some x ∧ routedClass.found x.sets =
        [[("n", "", some "String"), ("p", "u", some "m::S")], []] := by decide +kernel
  exact ⟨m, x, hok, hx, h, top_level_sets_checked hok
    (show routedClass.mappings = [] ++ [routedClass.mapping] from rfl) hx⟩

end Document
end ModelGraph
