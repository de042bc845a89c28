/-
# Elements in the package tree

An element stands in the tree under the names of its package and its own name, its
route. Adding an element fails if another one stands on the way; it replaces what stands
at its own route, a package with all that is in it perhaps. So after a build an element
is found at its route exactly if no other element stands on the way to it, and nothing
else is found in the tree.

Key definitions: `Header.route`, `Package.Holds`.
Key theorems: `Model.Enrolls.holds`, `Document.element_in_tree_iff`.
-/
import ModelGraph.Proofs.Build.Enrolment
import ModelGraph.Proofs.Model.Tree

namespace ModelGraph

open List Element

/-! ### Paths and their names -/

namespace Path

theorem intercalate_splitChars (cs : List Char) : [':', ':'].intercalate (splitChars cs) = cs := by
  fun_induction splitChars cs with
  | case1 => rfl
  | case2 rest ih =>
    obtain ⟨s, ss, hs⟩ := exists_cons_of_ne_nil (splitChars_ne_nil rest)
    rw [hs] at ih ⊢
    rw [intercalate_cons_cons, ih]
    rfl
  | case3 c rest hc hnil ih => exact absurd hnil (splitChars_ne_nil rest)
  | case4 c rest hc s ss hs ih =>
    rw [hs] at ih
    cases ss with
    | nil => rw [← ih, intercalate_singleton, intercalate_singleton]
    | cons t ts => rw [← ih, intercalate_cons_cons, intercalate_cons_cons]; rfl

theorem split_injective {p q : String} (h : split p = split q) : p = q := by
  have hchars : splitChars p.toList = splitChars q.toList :=
    map_injective_iff.2 (fun _ _ => String.ofList_injective) h
  have hlist : p.toList = q.toList := by
    rw [← intercalate_splitChars p.toList, hchars, intercalate_splitChars]
  exact String.toList_injective hlist

theorem splitChars_append {as bs : List Char} (h : as.getLast? ≠ some ':') :
    splitChars (as ++ ':' :: ':' :: bs) = splitChars as ++ splitChars bs := by
  fun_induction splitChars as with
  | case1 => rfl
  | case2 rest ih =>
    cases rest with
    | nil => exact absurd rfl h
    | cons c rest =>
      rw [cons_append, cons_append, splitChars, ih h]
      rfl
  | case3 c rest hc hnil ih => exact absurd hnil (splitChars_ne_nil rest)
  | case4 c rest hc s ss hs ih =>
    cases rest with
    | nil =>
      have hcolon : c ≠ ':' := fun hc' => h (by rw [hc']; rfl)
      cases hs
      rw [cons_append, splitChars]
      · rfl
      · exact fun _ hc' => absurd hc' hcolon
    | cons b rest =>
      have hrest := ih h
      rw [hs] at hrest
      rw [cons_append, splitChars, hrest]
      · rfl
      · intro rest' hc' hb
        exact hc rest hc' (by rw [(List.cons.inj hb).1])

/-- The names of a path are those of the package and the name, if the package does not end in
a colon and the name has no separator. -/
theorem split_join {package name : String} (hp : package.toList.getLast? ≠ some ':')
    (hn : isQualified name = false) : split (package ++ separator ++ name) = split package ++ [name] := by
  have hone : splitChars name.toList = [name.toList] := by
    unfold isQualified at hn
    obtain ⟨s, hs⟩ := length_eq_one_iff.1 (by simpa using hn)
    have hjoin := intercalate_splitChars name.toList
    rw [hs, intercalate_singleton] at hjoin
    rw [hs, hjoin]
  have hchars : (package ++ separator ++ name).toList = package.toList ++ ':' :: ':' :: name.toList := by
    rw [String.toList_append, String.toList_append, append_assoc]
    rfl
  rw [split, hchars, splitChars_append hp, hone, split]
  simp

end Path

/-! ### Routes -/

theorem Header.path_of_route {x y : Header} (hx : x.package ≠ "") (hy : y.package ≠ "")
    (h : x.route = y.route) : x.path = y.path := by
  unfold route Model.packageNames at h
  rw [if_neg hx, if_neg hy] at h
  obtain ⟨hpackage, hname⟩ := append_inj' h rfl
  rw [path, path, Path.split_injective hpackage, (List.cons.inj hname).1]

/-- No other of the headers stands on the way to the last name of one. -/
def Header.Clear (hs : List Header) (x : Header) : Prop := ∀ y ∈ hs, y.route <+: x.route → y.route = x.route

/-- The elements of a tree are those of the headers that nothing stands in the way of. -/
structure Package.Holds (t : Package String) (hs : List Header) : Prop where
  folder : t.isFolder = true
  known : ∀ {route v}, t.value? route = some v → ∃ x ∈ hs, x.route = route ∧ x.path = v
  found_iff : ∀ x ∈ hs, t.value? x.route = some x.path ↔ x.Clear hs

namespace Package.Holds

variable {t t' : Package String} {hs : List Header} {x : Header}

theorem root : (Package.root : Package String).Holds [] where
  folder := rfl
  known {route v} h := by
    cases route with
    | nil => cases h
    | cons s route => cases h
  found_iff _ h := nomatch h

/-- If no element stands on the way to a package, then none of the headers does: the one
with the shortest route among those that do would be found. -/
theorem not_prefix (ht : t.Holds hs) {ns : List String}
    (hway : ∀ route, route <+: ns → t.value? route = none) : ∀ y ∈ hs, ¬ y.route <+: ns := by
  have shortest : ∀ k, ∀ y ∈ hs, y.route.length = k → ¬ y.route <+: ns := by
    intro k
    induction k using Nat.strongRecOn with
    | ind k ih =>
      intro y hy hk hpre
      have hnone := hway y.route hpre
      have hhidden : ¬ y.Clear hs := fun hclear => by
        rw [(ht.found_iff y hy).2 hclear] at hnone
        cases hnone
      unfold Header.Clear at hhidden
      push Not at hhidden
      obtain ⟨z, hz, hzy, hne⟩ := hhidden
      have hlt : z.route.length < k := by
        have hle := hzy.length_le
        have hneq : z.route.length ≠ y.route.length := fun hlen => hne (hzy.eq_of_length hlen)
        omega
      exact ih z.route.length hlt z hz rfl (hzy.trans hpre)
  exact fun y hy => shortest _ y hy rfl

/-- **A tree that an element is added to holds it as well.** -/
theorem add (ht : t.Holds hs) (h : t.add (Model.packageNames x.package) (.leaf x.name x.path) = .ok t')
    (hnew : ∀ y ∈ hs, y.route ≠ x.route) : t'.Holds (hs ++ [x]) := by
  obtain ⟨hfolder, hway, hall⟩ := value?_add ht.folder h
  have hvalue : ∀ route, t'.value? route =
      if route = x.route then some x.path else if x.route <+: route then none else t.value? route := hall
  have hclear : ∀ y ∈ hs, ¬ y.route <+: x.route := by
    intro y hy hpre
    rcases prefix_concat_iff.1 hpre with heq | hpre
    · exact hnew y hy heq
    · exact ht.not_prefix hway y hy hpre
  refine ⟨hfolder, fun {route v} hv => ?_, fun y hy => ?_⟩
  · rw [hvalue] at hv
    by_cases hr : route = x.route
    · rw [if_pos hr] at hv
      cases hv
      exact ⟨x, mem_append_right _ (mem_singleton_self x), hr.symm, rfl⟩
    · rw [if_neg hr] at hv
      by_cases hp : x.route <+: route
      · rw [if_pos hp] at hv
        cases hv
      · rw [if_neg hp] at hv
        obtain ⟨y, hy, hroute, hpath⟩ := ht.known hv
        exact ⟨y, mem_append_left _ hy, hroute, hpath⟩
  · have hboth : y.Clear (hs ++ [x]) ↔ y.Clear hs ∧ (x.route <+: y.route → x.route = y.route) := by
      unfold Header.Clear
      rw [forall_mem_append, forall_mem_singleton]
    rcases mem_append.1 hy with hy | hy
    · rw [hvalue, if_neg (hnew y hy), hboth]
      by_cases hp : x.route <+: y.route
      · rw [if_pos hp]
        constructor
        · intro hnone
          cases hnone
        · intro hc
          exact absurd (hc.2 hp).symm (hnew y hy)
      · rw [if_neg hp, ht.found_iff y hy]
        exact ⟨fun hc => ⟨hc, fun h => absurd h hp⟩, fun hc => hc.1⟩
    · rw [mem_singleton.1 hy, hvalue, if_pos rfl]
      refine ⟨fun _ => ?_, fun _ => rfl⟩
      unfold Header.Clear
      rw [forall_mem_append, forall_mem_singleton]
      exact ⟨fun z hz hpre => absurd hpre (hclear z hz), fun _ => rfl⟩

end Package.Holds

namespace Model

variable {m m' : Model} {hs : List Header}

/-- A tree holds what the model takes in. -/
theorem Enrolls.holds (h : m.Enrolls hs m') (hm : m.packages.Holds []) : m'.packages.Holds hs := by
  induction h with
  | refl => exact hm
  | stay _ hstay ih => rwa [hstay.packages]
  | @add hs n n' x _ _ hn hadd ih =>
    obtain ⟨hx, hplace⟩ := register_add hadd
    refine ih.add hplace fun y hy hroute => ?_
    have hpath := Header.path_of_route (hn.package_ne y hy) hx hroute
    -- An element of that path would be there already.
    refine register_not_mem hadd ?_
    rw [hn.paths, mem_append]
    exact .inr (mem_map.2 ⟨y, hy, hpath⟩)

end Model

/-! ### Elements of a model -/

theorem withoutEnding_append (text ending : String) : withoutEnding (text ++ ending) ending = text := by
  have hends : endsWithText (text ++ ending) ending = true := by
    rw [endsWithText, isSuffixOf_iff_suffix, String.toList_append]
    exact suffix_append _ _
  rw [withoutEnding, if_pos hends, String.length_append, Nat.add_sub_cancel, String.toList_append,
    ← String.length_toList, take_left, String.ofList_toList]

namespace Element

def package (e : Element) : String := withoutEnding e.path (Path.separator ++ e.name)

def route (e : Element) : List String := Model.packageNames e.package ++ [e.name]

variable {e : Element} {x : Header}

theorem path_eq_of_label (h : e.label = x.label) (hx : x.package ≠ "") :
    e.path = x.package ++ Path.separator ++ e.name := by
  obtain ⟨hname, hpath⟩ := Prod.mk.inj h
  rw [hpath, hname, Header.path, Path.join, if_neg hx]

theorem package_of_label (h : e.label = x.label) (hx : x.package ≠ "") : e.package = x.package := by
  rw [package, path_eq_of_label h hx, String.append_assoc, withoutEnding_append]

theorem route_of_label (h : e.label = x.label) (hx : x.package ≠ "") : e.route = x.route := by
  rw [route, package_of_label h hx, (Prod.mk.inj h).1, Header.route]

theorem find?_route_iff {t : Package String} {v : String} :
    t.find? e.route = some (.leaf e.name v) ↔ t.value? e.route = some v := by
  constructor
  · intro h
    rw [Package.value?, h]
  · intro h
    unfold Package.value? at h
    split at h
    · rename_i name w hfound
      cases h
      have hname : name = e.name := Package.name_of_find? hfound
      rw [hfound, hname]
    · cases h

end Element

namespace Document

variable {d : Document} {o : Options} {m : Model}

/-- **An element of an accepted document is found in the tree exactly if no other element
stands on the way to it.** It is always found by its path; its route is the path taken
apart at the separators, if no name has one and no package ends in a colon; and nothing
else is found in the tree. -/
theorem element_in_tree_iff (h : (d.build o).result = .ok m) :
    (∀ e ∈ m.elements, m.element? e.path = some e ∧
      (m.packages.find? e.route = some (.leaf e.name e.path) ↔
        ∀ x ∈ m.elements, x.route <+: e.route → x = e) ∧
      (Path.isQualified e.name = false → e.package.toList.getLast? ≠ some ':' →
        Path.split e.path = e.route)) ∧
    ∀ route name path, m.packages.find? route = some (.leaf name path) →
      ∃ e ∈ m.elements, e.route = route ∧ e.name = name ∧ e.path = path := by
  have hruns : Runs (d.passes o) { options := o } m := (runPasses_result _ _).1 h
  have henrols := enrolls_of_runs (List.Subset.refl _) hruns
  have hholds := henrols.holds Package.Holds.root
  have hdistinct := henrols.distinct nodup_nil
  refine ⟨fun e he => ⟨?_, ?_, ?_⟩, fun route name path hfound => ?_⟩
  · rw [Model.element?, hdistinct.declared? he]
  · obtain ⟨x, hx, hlabel, hpackage⟩ := henrols.exists_header rfl he
    have hroute := route_of_label hlabel hpackage
    have hpath : e.path = x.path := (Prod.mk.inj hlabel).2
    rw [find?_route_iff, hroute, hpath, hholds.found_iff x hx]
    constructor
    · intro hclear e' he' hpre
      obtain ⟨y, hy, hlabel', hpackage'⟩ := henrols.exists_header rfl he'
      rw [route_of_label hlabel' hpackage'] at hpre
      have hsame := Header.path_of_route hpackage' hpackage (hclear y hy hpre)
      have hpath' : e'.path = y.path := (Prod.mk.inj hlabel').2
      refine inj_on_of_nodup_map hdistinct he' he ?_
      rw [hpath', hsame, hpath]
    · intro hclear y hy hpre
      obtain ⟨e', he', hlabel'⟩ := henrols.exists_element hy
      have hroute' := route_of_label hlabel' (henrols.package_ne y hy)
      rw [← hroute'] at hpre ⊢
      rw [hclear e' he' hpre, hroute]
  · obtain ⟨x, hx, hlabel, hpackage⟩ := henrols.exists_header rfl he
    intro hname hcolon
    rw [package_of_label hlabel hpackage] at hcolon
    rw [path_eq_of_label hlabel hpackage, Path.split_join hcolon hname, route,
      package_of_label hlabel hpackage, Model.packageNames, if_neg hpackage]
  · have hvalue : m.packages.value? route = some path := by rw [Package.value?, hfound]
    obtain ⟨x, hx, hroute, hpath⟩ := hholds.known hvalue
    obtain ⟨e, he, hlabel⟩ := henrols.exists_element hx
    have hname : name = x.name := by
      rw [← hroute, Header.route] at hfound
      exact Package.name_of_find? hfound
    obtain ⟨hename, hepath⟩ := Prod.mk.inj hlabel
    refine ⟨e, he, ?_, hename.trans hname.symm, hepath.trans hpath⟩
    rw [route_of_label hlabel (henrols.package_ne x hx), hroute]

def hiddenClass : Document :=
  { classes := [{ header := { package := "m::a", name := "X" } }, { header := { package := "m", name := "a" } }] }

/-- The document is accepted, and the class in the package is not found in the tree. -/
theorem hiddenClass_lost : ∃ m, (hiddenClass.build {}).result = .ok m ∧ ∃ x a, m.elements = [x, a] ∧
    x.label = ("X", "m::a::X") ∧ a.label = ("a", "m::a") ∧ m.element? "m::a::X" = some x ∧
    m.packages.find? ["m", "a", "X"] ≠ some (.leaf "X" "m::a::X") ∧
    m.packages.find? ["m", "a"] = some (.leaf "a" "m::a") := by
  obtain ⟨m, hok, hlabels⟩ : ∃ m, (hiddenClass.build {}).result = .ok m ∧ m.elements.map label =
      [("X", "m::a::X"), ("a", "m::a")] := by decide +kernel
  obtain ⟨x, rest, hxs, hx, hrest⟩ := map_eq_cons_iff.1 hlabels
  obtain ⟨a, tail, rfl, ha, hnil⟩ := map_eq_cons_iff.1 hrest
  rw [map_eq_nil_iff.1 hnil] at hxs
  obtain ⟨hxname, hxpath⟩ := Prod.mk.inj hx
  obtain ⟨haname, hapath⟩ := Prod.mk.inj ha
  have hxroute : x.route = ["m", "a", "X"] := by
    rw [route, package, hxpath, hxname]
    decide +kernel
  have haroute : a.route = ["m", "a"] := by
    rw [route, package, hapath, haname]
    decide +kernel
  have hne : a ≠ x := by
    rintro rfl
    cases hxroute.symm.trans haroute
  have hall := (element_in_tree_iff hok).1
  rw [hxs] at hall
  obtain ⟨hxfound, hxtree, -⟩ := hall x (.head _)
  obtain ⟨-, hatree, -⟩ := hall a (.tail _ (.head _))
  rw [hxpath] at hxfound
  rw [hxroute, hxname, hxpath] at hxtree
  rw [haroute, haname, hapath] at hatree
  refine ⟨m, hok, x, a, hxs, hx, ha, hxfound, fun hfound => ?_, hatree.2 ?_⟩
  · have hpre : a.route <+: ["m", "a", "X"] := by
      rw [haroute]
      exact ⟨["X"], rfl⟩
    exact hne (hxtree.1 hfound a (.tail _ (.head _)) hpre)
  · intro y hy hpre
    rcases mem_cons.1 hy with rfl | hy
    · rw [hxroute] at hpre
      have hlen := hpre.length_le
      simp at hlen
    · exact mem_singleton.1 hy

end Document
end ModelGraph
