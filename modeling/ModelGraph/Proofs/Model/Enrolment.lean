/-
# Which elements a model takes in

Elements come into a model one by one, each under the path of a header; what happens to
them afterwards leaves their names, their paths and the package tree alone. So the
headers of the elements, in the order in which they were added, determine the names and
paths of a model.

Key definitions: `Model.Stays`, `Model.Enrolls`.
Key theorems: `Model.Enrolls.trans`, `Model.Enrolls.labels`.
-/
import ModelGraph.Proofs.Build.Notes

namespace ModelGraph

open List

/-- What stays of an element once it is declared. -/
def Element.label (e : Element) : String × String := (e.name, e.path)

def Header.label (h : Header) : String × String := (h.name, h.path)

/-- The names that lead to the element of a header. -/
def Header.route (h : Header) : List String := Model.packageNames h.package ++ [h.name]

namespace Model

variable {m m' m'' n : Model} {p : String} {hs : List Header}

/-- No element was added, renamed or moved. -/
structure Stays (m m' : Model) : Prop where
  packages : m'.packages = m.packages
  labels : m'.elements.map Element.label = m.elements.map Element.label
  spans : m'.elements.map (·.span) = m.elements.map (·.span)

theorem Stays.paths (h : m.Stays m') : m'.elements.map (·.path) = m.elements.map (·.path) := by
  have hpaths := congrArg (List.map Prod.snd) h.labels
  rw [map_map, map_map] at hpaths
  exact hpaths

theorem Noted.stays (h : m.Noted m') : m.Stays m' := ⟨h.packages, by rw [h.elements], by rw [h.elements]⟩

theorem map_update {α : Type} {g : Element → α} {f : Element → Element} (hf : ∀ e, g (f e) = g e) :
    (m.update p f).elements.map g = m.elements.map g := by
  rw [update, map_map]
  refine map_congr_left fun e _ => ?_
  rw [Function.comp]
  split
  · exact hf e
  · rfl

theorem stays_update {f : Element → Element} (hf : ∀ e, (f e).label = e.label) (hs : ∀ e, (f e).span = e.span) :
    m.Stays (m.update p f) :=
  ⟨rfl, map_update hf, map_update hs⟩

theorem stays_setContent (content : ElementContent) : m.Stays (m.setContent p content) :=
  stays_update (fun _ => rfl) fun _ => rfl

theorem stays_updateClass (f : ClassContent → ClassContent) : m.Stays (m.updateClass p f) :=
  stays_update (fun e => by split <;> rfl) fun e => by split <;> rfl

theorem stays_updateMapping (f : Mapping → Mapping) : m.Stays (m.updateMapping p f) :=
  stays_update (fun e => by split <;> rfl) fun e => by split <;> rfl

theorem register_add {package name : String} {span : Span} {content : ElementContent}
    {annotations : Annotations} (h : m.register package name span content annotations = .ok m') :
    package ≠ "" ∧ m.packages.add (packageNames package) (.leaf name (Path.join package name)) =
      .ok m'.packages := by
  unfold register at h
  by_cases hp : package = ""
  · rw [if_pos hp] at h
    cases h
  rw [if_neg hp] at h
  refine ⟨hp, ?_⟩
  have hjoin : Path.join package name = package ++ Path.separator ++ name := by simp [Path.join, hp]
  rw [Package.add]
  rcases he : m.packages.ensure (packageNames package) with ⟨packages, _ | problem⟩
  · rw [he] at h
    simp only at h
    split at h
    · cases h
    · cases h
      rw [hjoin]
  · rw [he] at h
    cases h

/-- The elements of the headers come into the model in this order, each when no element has
its path. -/
inductive Enrolls (m : Model) : List Header → Model → Prop
  | refl : Enrolls m [] m
  | stay {hs : List Header} {n n' : Model} : Enrolls m hs n → n.Stays n' → Enrolls m hs n'
  | add {hs : List Header} {n n' : Model} {h : Header} {content : ElementContent}
      {annotations : Annotations} : Enrolls m hs n →
      n.register h.package h.name h.span content annotations = .ok n' → Enrolls m (hs ++ [h]) n'

namespace Enrolls

theorem of_stays (h : m.Stays m') : m.Enrolls [] m' := .stay .refl h

section

variable (h : m.Enrolls hs m')
include h

theorem trans {hs' : List Header} (k : m'.Enrolls hs' m'') :
    m.Enrolls (hs ++ hs') m'' := by
  induction k with
  | refl =>
    rw [append_nil]
    exact h
  | stay _ hstay ih => exact .stay ih hstay
  | add _ hadd ih =>
    rw [← append_assoc]
    exact .add ih hadd

/-- Names and paths are those of the headers. -/
theorem labels :
    m'.elements.map Element.label = m.elements.map Element.label ++ hs.map Header.label := by
  induction h with
  | refl => rw [map_nil, append_nil]
  | stay _ hstay ih => rw [hstay.labels, ih]
  | add _ hadd ih =>
    rw [(register_ok hadd).2.1, map_append, map_append, ih, append_assoc]
    rfl

theorem spans :
    m'.elements.map (·.span) = m.elements.map (·.span) ++ hs.map (·.span) := by
  induction h with
  | refl => rw [map_nil, append_nil]
  | stay _ hstay ih => rw [hstay.spans, ih]
  | add _ hadd ih =>
    rw [(register_ok hadd).2.1, map_append, map_append, ih, append_assoc]
    rfl

theorem paths :
    m'.elements.map (·.path) = m.elements.map (·.path) ++ hs.map (·.path) := by
  have hl := congrArg (List.map Prod.snd) h.labels
  rw [map_append, map_map, map_map, map_map] at hl
  exact hl

theorem distinct (hm : m.Distinct) : m'.Distinct := by
  induction h with
  | refl => exact hm
  | stay _ hstay ih =>
    unfold Distinct at ih ⊢
    rwa [hstay.paths]
  | add _ hadd ih => exact register_distinct hadd ih

theorem declared?_eq_none : ∀ x ∈ hs, m.declared? x.path = none := by
  induction h with
  | refl => exact forall_mem_nil _
  | stay _ _ ih => exact ih
  | @add hs n n' x _ _ hn hadd ih =>
    rw [forall_mem_append, forall_mem_singleton]
    refine ⟨ih, ?_⟩
    rcases hold : m.declared? x.path with _ | e
    · rfl
    · refine absurd ?_ (register_not_mem hadd)
      show x.path ∈ n.elements.map (·.path)
      rw [hn.paths, mem_append]
      exact .inl (path_of_declared? hold ▸ mem_map_of_mem (mem_of_declared? hold))

theorem declared?_isSome : ∀ x ∈ hs, (m'.declared? x.path).isSome := by
  intro x hx
  have hmem : x.path ∈ m'.elements.map (·.path) := by
    rw [h.paths, mem_append]
    exact .inr (mem_map_of_mem hx)
  obtain ⟨e, he, hpath⟩ := mem_map.1 hmem
  exact hpath ▸ declared?_isSome_of_mem he

theorem package_ne : ∀ x ∈ hs, x.package ≠ "" := by
  induction h with
  | refl => exact forall_mem_nil _
  | stay _ _ ih => exact ih
  | add _ hadd ih =>
    rw [forall_mem_append, forall_mem_singleton]
    exact ⟨ih, (register_add hadd).1⟩

theorem exists_header (hm : m.elements = []) {e : Element}
    (he : e ∈ m'.elements) : ∃ x ∈ hs, e.label = x.label ∧ x.package ≠ "" := by
  have hlabel : e.label ∈ m'.elements.map Element.label := mem_map_of_mem he
  rw [h.labels, hm, map_nil] at hlabel
  obtain ⟨x, hx, hlabel⟩ := mem_map.1 hlabel
  exact ⟨x, hx, hlabel.symm, h.package_ne x hx⟩

theorem exists_element {x : Header} (hx : x ∈ hs) :
    ∃ e ∈ m'.elements, e.label = x.label := by
  have hlabel : x.label ∈ m.elements.map Element.label ++ hs.map Header.label :=
    mem_append_right _ (mem_map_of_mem hx)
  rw [← h.labels] at hlabel
  exact mem_map.1 hlabel

end

end Enrolls
end Model
end ModelGraph
