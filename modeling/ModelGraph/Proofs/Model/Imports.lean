/-
# What a name stands for

A name that is special or has a package in it is looked up as it is. Any other name is looked
for in the imported packages: found in one of them it is that, found in none it is looked up
as it is, and found in several it is ambiguous, which is told with all its paths in order.
So what a name stands for depends on which packages are imported, and neither on their order
nor on how often each is imported. The same goes for the functions that a call may mean.

Key definitions: `Model.Imports`, `Resolution`.
Key theorems: `Context.search_iff`, `Context.candidates_congr`, `Context.resolution_by_imports`.
-/
import Mathlib.Data.String.Basic
import ModelGraph.Proofs.Model.Resolution

namespace ModelGraph

open List hiding get

namespace Path

theorem exists_separator : ∀ cs : List Char, (splitChars cs).length ≠ 1 → ∃ as bs, cs = as ++ ':' :: ':' :: bs := by
  intro cs
  fun_induction splitChars cs with
  | case1 => exact fun h => absurd rfl h
  | case2 rest _ => exact fun _ => ⟨[], rest, rfl⟩
  | case3 c rest _ hnil _ => exact absurd hnil (splitChars_ne_nil rest)
  | case4 c rest _ s ss hs ih =>
    intro h
    rw [hs] at ih
    obtain ⟨as, bs, rfl⟩ := ih h
    exact ⟨c :: as, bs, rfl⟩

theorem isQualified_iff : isQualified path = true ↔ ∃ package name, path = package ++ separator ++ name := by
  constructor
  · intro h
    obtain ⟨as, bs, hcs⟩ := exists_separator path.toList (by simpa [isQualified] using h)
    refine ⟨.ofList as, .ofList bs, ?_⟩
    rw [← String.toList_inj, hcs]
    simp [separator]
  · rintro ⟨package, name, rfl⟩
    exact isQualified_append package name

end Path

theorem distinct_nodup {α : Type} [BEq α] [LawfulBEq α] : ∀ l : List α, (distinct l).Nodup
  | [] => .nil
  | a :: l => by
    rw [distinct, nodup_cons]
    exact ⟨fun h => by simp at h, (distinct_nodup l).filter _⟩

theorem mergeSort_sorted (l : List String) : (l.mergeSort fun a b => a ≤ b).Pairwise (· ≤ ·) := by
  have hsorted : (l.mergeSort fun a b => decide (a ≤ b)).Pairwise fun a b => decide (a ≤ b) = true :=
    pairwise_mergeSort
      (fun a b c hab hbc => by simpa using le_trans (of_decide_eq_true hab) (of_decide_eq_true hbc))
      (fun a b => by simpa using le_total a b) l
  exact hsorted.imp of_decide_eq_true

theorem mergeSort_eq_of_perm {l l' : List String} (h : l.Perm l') :
    l.mergeSort (fun a b => a ≤ b) = l'.mergeSort fun a b => a ≤ b :=
  List.Perm.eq_of_pairwise (fun _ _ _ _ hab hba => le_antisymm hab hba) (mergeSort_sorted l) (mergeSort_sorted l')
    ((mergeSort_perm l _).trans (h.trans (mergeSort_perm l' _).symm))

/-- The packages that an element imports: those that all do, and those of its section. -/
def Model.Imports (m : Model) (element package : String) : Prop :=
  package ∈ commonImports ∨ package ∈ m.importsOf element

inductive Resolution {α : Type} (imported : String → Prop) (path : String) (span : Span) (get : String → Result α) :
    Result α → Prop
  /-- A special name, or one with a package, is looked up as it is. -/
  | direct : path ∈ specialNames ∨ (∃ package name, path = package ++ "::" ++ name) →
      Resolution imported path span get (get path)
  /-- A short name is found in one package only. -/
  | imported {package : String} {a : α} : path ∉ specialNames → (¬∃ package name, path = package ++ "::" ++ name) →
      imported package → get (package ++ "::" ++ path) = .ok a →
      (∀ package' a', imported package' → get (package' ++ "::" ++ path) = .ok a' → package' = package) →
      Resolution imported path span get (.ok a)
  /-- A short name is found in no package. -/
  | missed : path ∉ specialNames → (¬∃ package name, path = package ++ "::" ++ name) →
      (∀ package a, imported package → get (package ++ "::" ++ path) ≠ .ok a) →
      Resolution imported path span get (get path)
  /-- A short name is found in two packages or more. -/
  | ambiguous {paths : List String} : path ∉ specialNames → (¬∃ package name, path = package ++ "::" ++ name) →
      2 ≤ paths.length → paths.Pairwise (· < ·) →
      (∀ full, full ∈ paths ↔ ∃ package a, imported package ∧ full = package ++ "::" ++ path ∧ get full = .ok a) →
      Resolution imported path span get (failAt span (.ambiguous path paths))

namespace Context

variable {α : Type} {m m' : Model} {element path package : String} {span : Span} {get : String → Result α}

theorem mem_imports : package ∈ (Context.of m element).imports ↔ m.Imports element package := by
  rw [Context.of, mem_distinct, mem_append, Model.Imports]

/-- The same packages are imported, each once, in some order. -/
theorem imports_perm (h : ∀ package, package ∈ m'.importsOf element ↔ package ∈ m.importsOf element) :
    (Context.of m' element).imports.Perm (Context.of m element).imports := by
  refine (perm_ext_iff_of_nodup (distinct_nodup _) (distinct_nodup _)).2 fun package => ?_
  show package ∈ (Context.of m' element).imports ↔ package ∈ (Context.of m element).imports
  rw [mem_imports, mem_imports, Model.Imports, Model.Imports, h]

theorem append_separator_inj {package' : String}
    (h : package ++ Path.separator ++ path = package' ++ Path.separator ++ path) : package = package' := by
  simpa [← String.toList_inj] using h

theorem mem_hits {full : String} {a : α} : (full, a) ∈ (Context.of m element).hits path get ↔
    ∃ package, m.Imports element package ∧ full = package ++ Path.separator ++ path ∧ get full = .ok a := by
  unfold hits
  simp only [mem_filterMap, Option.map_eq_some_iff, Prod.mk.injEq, mem_imports, Result.toOption_eq_some]
  constructor
  · rintro ⟨package, himported, b, hb, rfl, rfl⟩
    exact ⟨package, himported, rfl, hb⟩
  · rintro ⟨package, himported, rfl, hb⟩
    exact ⟨package, himported, a, hb, rfl, rfl⟩

theorem hits_nodup (m : Model) (element path : String) (get : String → Result α) :
    (((Context.of m element).hits path get).map (·.1)).Nodup := by
  have hpaths : ((Context.of m element).imports.map fun package => package ++ Path.separator ++ path).Nodup :=
    (distinct_nodup _).map fun _ _ h => append_separator_inj h
  refine hpaths.sublist ?_
  unfold hits
  rw [map_filterMap, ← filterMap_eq_map]
  refine filterMap_sublist (fun package full h => ?_) _
  obtain ⟨x, hx, rfl⟩ := Option.map_eq_some_iff.1 h
  obtain ⟨a, -, rfl⟩ := Option.map_eq_some_iff.1 hx
  rfl

theorem search_cases (c : Context) (get : String → Result α) (span : Span) (hspecial : path ∉ specialNames)
    (hshort : Path.isQualified path = false) :
    (c.hits path get = [] ∧ c.search path span get = get path) ∨
    (∃ full a, c.hits path get = [(full, a)] ∧ c.search path span get = .ok a) ∨
    (2 ≤ (c.hits path get).length ∧ c.search path span get =
      failAt span (.ambiguous path (((c.hits path get).map (·.1)).mergeSort fun a b => a ≤ b))) := by
  unfold search
  rw [if_neg (by simp [hspecial, hshort])]
  generalize hfound : (c.imports.filterMap _ : List (String × α)) = found
  have heq : c.hits path get = found := by
    rw [← hfound]
    refine filterMap_congr fun package _ => ?_
    simp only
    rcases get (package ++ Path.separator ++ path) with _ | a
    · rfl
    · rfl
  rw [heq]
  rcases found with _ | ⟨⟨full, a⟩, _ | ⟨hit, found⟩⟩
  · exact .inl ⟨rfl, rfl⟩
  · exact .inr (.inl ⟨full, a, rfl, rfl⟩)
  · exact .inr (.inr ⟨by simp, rfl⟩)

theorem search_resolution (m : Model) (element path : String) (span : Span) (get : String → Result α) :
    Resolution (m.Imports element) path span get ((Context.of m element).search path span get) := by
  by_cases hdirect : path ∈ specialNames ∨ Path.isQualified path = true
  · have hsearch : (Context.of m element).search path span get = get path := by
      unfold search
      rw [if_pos (by simpa using hdirect)]
    rw [hsearch]
    exact .direct (hdirect.imp_right Path.isQualified_iff.1)
  rw [not_or, Bool.not_eq_true] at hdirect
  obtain ⟨hspecial, hqualified⟩ := hdirect
  have hshort : ¬∃ package name, path = package ++ "::" ++ name := fun h => by
    rw [Path.isQualified_iff.2 h] at hqualified
    cases hqualified
  have hmem (full : String) (a : α) : (full, a) ∈ (Context.of m element).hits path get ↔
      ∃ package, m.Imports element package ∧ full = package ++ "::" ++ path ∧ get full = .ok a := mem_hits
  rcases (Context.of m element).search_cases get span hspecial hqualified with
    ⟨hnone, hsearch⟩ | ⟨full, a, hone, hsearch⟩ | ⟨htwo, hsearch⟩
  · rw [hsearch]
    refine .missed hspecial hshort fun package a himported ha => ?_
    have hhit := (hmem _ a).2 ⟨package, himported, rfl, ha⟩
    rw [hnone] at hhit
    cases hhit
  · rw [hsearch]
    obtain ⟨package, himported, rfl, ha⟩ := (hmem full a).1 (hone ▸ mem_singleton_self _)
    refine .imported hspecial hshort himported ha fun package' a' himported' ha' => ?_
    have hhit := (hmem _ a').2 ⟨package', himported', rfl, ha'⟩
    rw [hone, mem_singleton] at hhit
    exact append_separator_inj (Prod.mk.inj hhit).1
  · rw [hsearch]
    refine .ambiguous hspecial hshort (by simpa using htwo) ?_ fun full => ?_
    · have hnodup := ((mergeSort_perm _ fun a b => decide (a ≤ b)).nodup_iff).2 (hits_nodup m element path get)
      exact (mergeSort_sorted _).imp₂ (fun _ _ => lt_of_le_of_ne) hnodup
    · rw [mem_mergeSort, mem_map]
      constructor
      · rintro ⟨⟨full, a⟩, hhit, rfl⟩
        obtain ⟨package, h⟩ := (hmem full a).1 hhit
        exact ⟨package, a, h⟩
      · rintro ⟨package, a, h⟩
        exact ⟨(full, a), (hmem full a).2 ⟨package, h⟩, rfl⟩

end Context

theorem Resolution.unique {α : Type} {imported : String → Prop} {span : Span} {get : String → Result α}
    {r r' : Result α} (h : Resolution imported path span get r) (h' : Resolution imported path span get r') : r = r' := by
  -- What is found twice contradicts being found once or never.
  have htwo {paths : List String} (hlength : 2 ≤ paths.length) (hsorted : paths.Pairwise (· < ·))
      (hmem : ∀ full, full ∈ paths ↔ ∃ package a, imported package ∧ full = package ++ "::" ++ path ∧ get full = .ok a) :
      ∃ package package' a a', imported package ∧ imported package' ∧ package ≠ package' ∧
        get (package ++ "::" ++ path) = .ok a ∧ get (package' ++ "::" ++ path) = .ok a' := by
    rcases paths with _ | ⟨full, _ | ⟨full', rest⟩⟩
    · simp at hlength
    · simp at hlength
    · obtain ⟨package, a, himported, rfl, ha⟩ := (hmem full).1 (.head _)
      obtain ⟨package', a', himported', rfl, ha'⟩ := (hmem full').1 (.tail _ (.head _))
      refine ⟨package, package', a, a', himported, himported', ?_, ha, ha'⟩
      rintro rfl
      exact lt_irrefl _ ((pairwise_cons.1 hsorted).1 _ (.head _))
  cases h with
  | direct h =>
    cases h' with
    | direct _ => rfl
    | imported hspecial hshort _ _ _ => exact (h.elim hspecial hshort).elim
    | missed _ _ _ => rfl
    | ambiguous hspecial hshort _ _ _ => exact (h.elim hspecial hshort).elim
  | imported hspecial hshort himported ha honly =>
    cases h' with
    | direct h => exact (h.elim hspecial hshort).elim
    | imported _ _ himported' ha' _ =>
      cases honly _ _ himported' ha'
      exact ha.symm.trans ha'
    | missed _ _ hnone => exact (hnone _ _ himported ha).elim
    | ambiguous _ _ hlength hsorted hmem =>
      obtain ⟨package, package', a, a', hp, hp', hne, hget, hget'⟩ := htwo hlength hsorted hmem
      exact (hne ((honly _ _ hp hget).trans (honly _ _ hp' hget').symm)).elim
  | missed hspecial hshort hnone =>
    cases h' with
    | direct _ => rfl
    | imported _ _ himported ha _ => exact (hnone _ _ himported ha).elim
    | missed _ _ _ => rfl
    | ambiguous _ _ hlength hsorted hmem =>
      obtain ⟨package, -, a, -, hp, -, -, hget, -⟩ := htwo hlength hsorted hmem
      exact (hnone _ _ hp hget).elim
  | ambiguous hspecial hshort hlength hsorted hmem =>
    cases h' with
    | direct h => exact (h.elim hspecial hshort).elim
    | imported _ _ _ _ honly =>
      obtain ⟨package, package', a, a', hp, hp', hne, hget, hget'⟩ := htwo hlength hsorted hmem
      exact (hne ((honly _ _ hp hget).trans (honly _ _ hp' hget').symm)).elim
    | missed _ _ hnone =>
      obtain ⟨package, -, a, -, hp, -, -, hget, -⟩ := htwo hlength hsorted hmem
      exact (hnone _ _ hp hget).elim
    | ambiguous _ _ _ hsorted' hmem' =>
      have hperm := (perm_ext_iff_of_nodup (hsorted.imp ne_of_lt) (hsorted'.imp ne_of_lt)).2
        fun full => (hmem full).trans (hmem' full).symm
      rw [hperm.eq_of_pairwise (fun _ _ _ _ hab hba => (lt_asymm hab hba).elim) hsorted hsorted']

namespace Context

variable {α : Type} {m m' : Model} {element path : String} {span : Span} {get : String → Result α} {r : Result α}

/-- **A search gives what the imported packages say, and nothing else.** -/
theorem search_iff : (Context.of m element).search path span get = r ↔
    Resolution (m.Imports element) path span get r :=
  ⟨fun h => h ▸ search_resolution m element path span get, (search_resolution m element path span get).unique⟩

section

variable (h : ∀ package, package ∈ m'.importsOf element ↔ package ∈ m.importsOf element)
include h

/-- **The order of imports does not matter.** -/
theorem search_congr_imports :
    (Context.of m' element).search path span get = (Context.of m element).search path span get := by
  have himports : m'.Imports element = m.Imports element := by
    funext package
    rw [Model.Imports, Model.Imports, h]
  exact search_iff.2 (himports ▸ search_resolution m element path span get)

/-- **The order of imports does not matter for calls.** -/
theorem candidates_congr_imports (hcandidates : m'.candidatesAt = m.candidatesAt) (name : String) :
    (Context.of m' element).candidates name span = (Context.of m element).candidates name span := by
  have hperm := imports_perm h
  have hmodel : (Context.of m' element).model.candidatesAt = (Context.of m element).model.candidatesAt := hcandidates
  unfold candidates
  rw [hmodel]
  split
  · rfl
  generalize hfound : ((Context.of m element).imports.filterMap _ : List (String × List Candidate)) = found
  generalize hfound' : ((Context.of m' element).imports.filterMap _ : List (String × List Candidate)) = found'
  have hsame : found'.Perm found := hfound ▸ hfound' ▸ hperm.filterMap _
  rcases found with _ | ⟨x, _ | ⟨y, found⟩⟩
  · rw [hsame.eq_nil]
  · rw [perm_singleton.1 hsame]
  · rcases found' with _ | ⟨x', _ | ⟨y', found'⟩⟩
    · exact absurd hsame.length_eq (by simp)
    · exact absurd hsame.length_eq (by simp)
    · simp only [mergeSort_eq_of_perm (hsame.map (·.1))]

end

/-- **A name stands for what the imported packages say, whatever their order.** Look-ups of
every kind, by whatever function looks up paths, come to just what `Resolution` says of the
packages in force. They come to the same, and so do the functions that a call may mean, where
the sections have the same imports in another order or more than once. -/
theorem resolution_by_imports {imports : List (String × List String)}
    (h : ∀ package, package ∈ ({ m with imports } : Model).importsOf element ↔ package ∈ m.importsOf element)
    (path : String) (span : Span) :
    (∀ (α : Type) (get : String → Result α) (r : Result α), (Context.of m element).search path span get = r ↔
      Resolution (m.Imports element) path span get r) ∧
    (∀ (α : Type) (get : String → Result α), (Context.of { m with imports } element).search path span get =
      (Context.of m element).search path span get) ∧
    (∀ category, (Context.of { m with imports } element).resolve category path span =
      (Context.of m element).resolve category path span) ∧
    (Context.of { m with imports } element).resolveElement path span =
      (Context.of m element).resolveElement path span ∧
    (Context.of { m with imports } element).candidates path span =
      (Context.of m element).candidates path span :=
  ⟨fun _ _ _ => search_iff, fun _ _ => search_congr_imports h, fun _ => search_congr_imports h,
    search_congr_imports h, candidates_congr_imports h rfl path⟩

end Context

/-- A class that imports two packages, each of which has a class of one name. -/
def Document.sharedNames : Document :=
  { sections := [{ header := { package := "m", name := "s" }
                   sections := [{ elements := ["m::C"], imports := ["b", "a"] }] }]
    classes := [("a", "X"), ("b", "X"), ("m", "C")].map fun x => { header := { package := x.1, name := x.2 } } }
where
  /-- The imports of the class in another order, one of them twice. -/
  reordered : List (String × List String) := [("m::C", ["a", "b", "a"])]

open Document in
theorem Document.sharedNames_resolved : ∃ m, (sharedNames.build {}).result = .ok m ∧
    (m.find? .classType "a::X").isSome ∧ (m.find? .classType "b::X").isSome ∧
    ∀ path span,
      (∀ (α : Type) (get : String → Result α) (r : Result α), (Context.of m "m::C").search path span get = r ↔
        Resolution (m.Imports "m::C") path span get r) ∧
      (∀ (α : Type) (get : String → Result α),
        (Context.of { m with imports := sharedNames.reordered } "m::C").search path span get =
          (Context.of m "m::C").search path span get) ∧
      (∀ category, (Context.of { m with imports := sharedNames.reordered } "m::C").resolve category path span =
        (Context.of m "m::C").resolve category path span) ∧
      (Context.of { m with imports := sharedNames.reordered } "m::C").resolveElement path span =
        (Context.of m "m::C").resolveElement path span ∧
      (Context.of { m with imports := sharedNames.reordered } "m::C").candidates path span =
        (Context.of m "m::C").candidates path span := by
  obtain ⟨m, hok, himports, ha, hb⟩ : ∃ m, (sharedNames.build {}).result = .ok m ∧ m.importsOf "m::C" = ["b", "a"] ∧
      (m.find? .classType "a::X").isSome ∧ (m.find? .classType "b::X").isSome := by decide +kernel
  refine ⟨m, hok, ha, hb, Context.resolution_by_imports fun package => ?_⟩
  have hreordered : ({ m with imports := sharedNames.reordered } : Model).importsOf "m::C" = ["a", "b", "a"] := rfl
  rw [hreordered, himports]
  have hmem : ["a", "b", "a"] ⊆ ["b", "a"] ∧ ["b", "a"] ⊆ ["a", "b", "a"] := by decide
  exact ⟨fun h => hmem.1 h, fun h => hmem.2 h⟩

end ModelGraph
