/-
# The package tree

In the package tree names lead to a package, to an element or to nothing. An element can
be added where no element stands on the way to it and no package with the reserved name
would have to be made. Then it is found at its route and hides what was further on, on
the way to it are packages, and all else is found as before.

Key definitions: `Package.kind?`, `Package.value?`.
Key theorems: `Package.ensureFrom_spec`, `Package.kind?_add`, `Package.exists_add`.
-/
import Mathlib.Data.List.Infix
import ModelGraph.Package

namespace ModelGraph

open List Option

namespace Path

theorem splitChars_ne_nil : ∀ cs : List Char, splitChars cs ≠ [] := by
  intro cs
  fun_cases splitChars cs
  all_goals simp_all

theorem split_ne_nil (path : String) : split path ≠ [] := by
  rw [split, ne_eq, map_eq_nil_iff]
  exact splitChars_ne_nil _

end Path

namespace Package

variable {α : Type} {p c node t t' : Package α} {s n : String} {ns route : List String} {v : α}

/-! ### Children -/

theorem name_of_child? (h : p.child? s = some c) : c.name = s := by
  simpa using find?_some h

theorem find?_insert (node : Package α) (s : String) : ∀ cs : List (Package α),
    (insert node cs).find? (fun c => c.name = s) =
      if node.name = s then some node else cs.find? fun c => c.name = s
  | [] => by
    rw [insert]
    by_cases hs : node.name = s <;> simp [hs]
  | c :: cs => by
    rw [insert]
    by_cases hc : c.name = node.name
    · rw [if_pos hc]
      by_cases hs : node.name = s
      · simp [hs]
      · simp [hs, hc]
    · rw [if_neg hc, find?_cons, find?_insert node s cs]
      by_cases hs : c.name = s
      · have hn : node.name ≠ s := fun h => hc (hs.trans h.symm)
        simp [hs, hn]
      · simp [hs]

theorem child?_insert (n s : String) (node : Package α) (cs : List (Package α)) :
    (folder n (insert node cs)).child? s = if node.name = s then some node else cs.find? fun c => c.name = s :=
  find?_insert node s cs

/-! ### What names lead to -/

/-- What names lead to: nothing, a package, or the value of an element. -/
def kind? (p : Package α) (route : List String) : Option (Option α) :=
  (p.find? route).map fun
    | folder _ _ => none
    | leaf _ v => some v

/-- The value of the element that names lead to. -/
def value? (p : Package α) (route : List String) : Option α :=
  match p.find? route with
  | some (leaf _ v) => some v
  | _ => none

theorem value?_eq (p : Package α) (route : List String) : p.value? route = (p.kind? route).join := by
  rw [value?, kind?]
  rcases p.find? route with _ | ⟨_ | _⟩
  · rfl
  · rfl
  · rfl

theorem kind?_cons (p : Package α) (s : String) (route : List String) :
    p.kind? (s :: route) = (p.child? s).bind (·.kind? route) := by
  rw [kind?, find?]
  rcases p.child? s with _ | c
  · rfl
  · rfl

theorem kind?_empty (n : String) (s : String) (route : List String) :
    (folder n [] : Package α).kind? (s :: route) = none := rfl

theorem kind?_leaf (n : String) (v : α) (route : List String) :
    (leaf n v).kind? route = if route = [] then some (some v) else none := by
  cases route with
  | nil => rfl
  | cons t route => rfl

theorem name_of_find? : ∀ {route : List String} {p : Package α},
    p.find? (route ++ [n]) = some c → c.name = n
  | [], p, h => by
    rw [nil_append, find?] at h
    split at h
    · rename_i x hx
      cases h
      exact name_of_child? hx
    · cases h
  | s :: route, p, h => by
    rw [cons_append, find?] at h
    split at h
    · exact name_of_find? h
    · cases h

/-! ### Making packages -/

/-- The way that names lead is free: each leads to a package, or to nothing and is not
reserved. -/
def Open (p : Package α) (ns : List String) : Prop :=
  ∀ route s, route ++ [s] <+: ns →
    p.kind? (route ++ [s]) = some none ∨ p.kind? (route ++ [s]) = none ∧ s ≠ reserved

theorem open_nil (p : Package α) : p.Open [] := by
  intro route s hpre
  have hnil := prefix_nil.1 hpre
  cases route <;> cases hnil

theorem open_cons (hc : ∀ t route, p.kind? (s :: t :: route) = c.kind? (t :: route)) :
    p.Open (s :: ns) ↔ (p.kind? [s] = some none ∨ p.kind? [s] = none ∧ s ≠ reserved) ∧ c.Open ns := by
  have below : ∀ route t, p.kind? (s :: (route ++ [t])) = c.kind? (route ++ [t]) := by
    intro route t
    cases route with
    | nil => exact hc t []
    | cons u route => exact hc u (route ++ [t])
  constructor
  · intro h
    refine ⟨h [] s (prefix_append [s] ns), fun route t hpre => ?_⟩
    rw [← below]
    exact h (s :: route) t ((prefix_cons_inj s).2 hpre)
  · rintro ⟨hfirst, hrest⟩ route t hpre
    cases route with
    | nil =>
      obtain ⟨rfl, -⟩ := cons_prefix_cons.1 hpre
      exact hfirst
    | cons u route =>
      obtain ⟨rfl, hbelow⟩ := cons_prefix_cons.1 hpre
      rw [cons_append, below]
      exact hrest route t hbelow

theorem name_ensureFrom (done : List String) (p : Package α) (ns : List String) :
    (ensureFrom done p ns).1.name = p.name := by
  cases ns with
  | nil => rfl
  | cons s rest =>
    rw [ensureFrom]
    split
    · split <;> rfl
    · rfl
    · rfl

/-- Packages can be made just where the way is free, and then they are there. -/
theorem ensureFrom_spec : ∀ (ns done : List String) {p : Package α}, (ns = [] → p.isFolder = true) →
    ((ensureFrom done p ns).2 = none ↔ p.Open ns) ∧
    ((ensureFrom done p ns).2 = none → (ensureFrom done p ns).1.isFolder = true ∧
      ∀ route, (ensureFrom done p ns).1.kind? route = if route <+: ns then some none else p.kind? route)
  | [], done, p, hp => by
    refine ⟨iff_of_true rfl p.open_nil, fun _ => ⟨hp rfl, fun route => ?_⟩⟩
    by_cases hroute : route <+: []
    · rw [prefix_nil.1 hroute]
      cases p with
      | folder _ _ => rfl
      | leaf _ _ => cases hp rfl
    · rw [if_neg hroute]
      rfl
  | s :: ns, done, p, _ => by
    -- What is made takes the place of the child.
    have step : ∀ c : Package α, c.isFolder = true → c.name = s →
        (∀ t route, p.kind? (s :: t :: route) = c.kind? (t :: route)) →
        (p.kind? [s] = some none ∨ p.kind? [s] = none ∧ s ≠ reserved) →
        ((ensureFrom (done ++ [s]) c ns).2 = none ↔ p.Open (s :: ns)) ∧
        ((ensureFrom (done ++ [s]) c ns).2 = none →
          ∀ route, (folder p.name (insert (ensureFrom (done ++ [s]) c ns).1 p.children)).kind? route =
            if route <+: s :: ns then some none else p.kind? route) := by
      intro c hc hname hbelow hfirst
      obtain ⟨hiff, hmade⟩ := ensureFrom_spec ns (done ++ [s]) fun _ => hc
      refine ⟨hiff.trans ⟨fun h => (open_cons hbelow).2 ⟨hfirst, h⟩, fun h => ((open_cons hbelow).1 h).2⟩, ?_⟩
      intro hok route
      cases route with
      | nil => rfl
      | cons t route =>
        rw [kind?_cons, child?_insert, name_ensureFrom, hname]
        by_cases ht : s = t
        · subst ht
          rw [if_pos rfl, bind_some, (hmade hok).2 route]
          by_cases hroute : route <+: ns
          · rw [if_pos hroute, if_pos ((prefix_cons_inj s).2 hroute)]
          · rw [if_neg hroute, if_neg fun h => hroute ((prefix_cons_inj s).1 h)]
            cases route with
            | nil => exact absurd nil_prefix hroute
            | cons u route => exact (hbelow u route).symm
        · rw [if_neg ht, if_neg fun h => ht (cons_prefix_cons.1 h).1.symm, kind?_cons]
          rfl
    rw [ensureFrom]
    split
    · rename_i hnone
      have hfree : p.kind? [s] = none := by rw [kind?_cons, hnone, bind_none]
      split
      · rename_i hs
        refine ⟨iff_of_false (fun h => nomatch h) fun h => ?_, fun h => nomatch h⟩
        rcases h [] s (prefix_append [s] ns) with hkind | ⟨-, hres⟩
        · rw [nil_append, hfree] at hkind
          cases hkind
        · exact hres hs
      · rename_i hs
        have hspec := step (folder s []) rfl rfl
          (fun t route => by rw [kind?_cons, hnone, bind_none, kind?_empty]) (.inr ⟨hfree, hs⟩)
        exact ⟨hspec.1, fun h => ⟨rfl, hspec.2 h⟩⟩
    · rename_i name v hleaf
      refine ⟨iff_of_false (fun h => nomatch h) fun h => ?_, fun h => nomatch h⟩
      have hkind : p.kind? [s] = some (some v) := by rw [kind?_cons, hleaf]; rfl
      rcases h [] s (prefix_append [s] ns) with hk | ⟨hk, -⟩
      · rw [nil_append, hkind] at hk
        cases hk
      · rw [nil_append, hkind] at hk
        cases hk
    · rename_i n' cs' hchild
      have hkind : p.kind? [s] = some none := by rw [kind?_cons, hchild]; rfl
      have hspec := step (folder n' cs') rfl (name_of_child? hchild)
        (fun t route => by rw [kind?_cons, hchild]; rfl) (.inl hkind)
      exact ⟨hspec.1, fun h => ⟨rfl, hspec.2 h⟩⟩

/-! ### Placing elements -/

theorem name_place (node p : Package α) (ns : List String) : (place node p ns).name = p.name := by
  cases ns with
  | nil => rfl
  | cons s rest =>
    rw [place]
    split
    · rfl
    · rfl

theorem kind?_place (n : String) (v : α) : ∀ (ns : List String) {p : Package α}, p.kind? ns = some none →
    (place (leaf n v) p ns).isFolder = true ∧ ∀ route, (place (leaf n v) p ns).kind? route =
      if route = ns ++ [n] then some (some v) else if ns ++ [n] <+: route then none else p.kind? route
  | [], p, h => by
    obtain ⟨name, cs, rfl⟩ : ∃ name cs, p = folder name cs := by
      cases p with
      | folder name cs => exact ⟨name, cs, rfl⟩
      | leaf _ _ => cases h
    refine ⟨rfl, fun route => ?_⟩
    cases route with
    | nil => rfl
    | cons t route =>
      have hname : (leaf n v).name = n := rfl
      rw [place, kind?_cons, child?_insert, hname, kind?_cons]
      by_cases ht : n = t
      · subst ht
        simp [kind?_leaf]
      · have ht' : t ≠ n := fun h => ht h.symm
        simp only [ht, ht', nil_append, List.cons.injEq, cons_prefix_cons]
        rfl
  | s :: ns, p, h => by
    rw [kind?_cons] at h
    obtain ⟨c, hchild, hc⟩ := bind_eq_some_iff.1 h
    obtain ⟨-, hplaced⟩ := kind?_place n v ns hc
    rw [place, hchild]
    refine ⟨rfl, fun route => ?_⟩
    cases route with
    | nil =>
      cases p with
      | folder _ _ => rfl
      | leaf _ _ => cases hchild
    | cons t route =>
      rw [kind?_cons, child?_insert, name_place, name_of_child? hchild, kind?_cons]
      by_cases ht : s = t
      · subst ht
        rw [if_pos rfl, bind_some, hplaced, hchild]
        simp [cons_prefix_cons]
      · have ht' : t ≠ s := fun h => ht h.symm
        simp only [ht, ht', cons_append, List.cons.injEq, cons_prefix_cons]
        rfl

/-- **What adding an element does to the tree.** The way to it is free; it is found at its
route afterwards, nothing is found further on, on the way to it are packages, and all else
is found as before. -/
theorem kind?_add (ht : ns = [] → t.isFolder = true) (h : t.add ns (leaf n v) = .ok t') :
    t.Open ns ∧ t'.isFolder = true ∧ ∀ route, t'.kind? route =
      if route = ns ++ [n] then some (some v) else if ns ++ [n] <+: route then none
      else if route <+: ns then some none else t.kind? route := by
  obtain ⟨hiff, hmade⟩ := ensureFrom_spec ns [] ht
  rw [add, ensure] at h
  rcases he : ensureFrom [] t ns with ⟨made, _ | problem⟩
  · rw [he] at h hiff hmade
    cases h
    obtain ⟨hfolder, hkind⟩ := hmade rfl
    obtain ⟨hplaced, hfound⟩ := kind?_place n v ns (by rw [hkind, if_pos (prefix_refl ns)])
    exact ⟨hiff.1 rfl, hplaced, fun route => by rw [hfound, hkind]⟩
  · rw [he] at h
    cases h

/-- Where the way is free an element can be added. -/
theorem exists_add (ht : ns = [] → t.isFolder = true) (h : t.Open ns) (node : Package α) :
    ∃ t', t.add ns node = .ok t' := by
  have hok := (ensureFrom_spec ns [] ht).1.2 h
  rw [add, ensure]
  rcases he : ensureFrom [] t ns with ⟨made, _ | problem⟩
  · exact ⟨_, rfl⟩
  · rw [he] at hok
    cases hok

/-- No element stands on the way to one that is added, and elements stay where they are unless
it hides them. -/
theorem value?_add (ht : t.isFolder = true) (h : t.add ns (leaf n v) = .ok t') :
    t'.isFolder = true ∧ (∀ route, route <+: ns → t.value? route = none) ∧ ∀ route, t'.value? route =
      if route = ns ++ [n] then some v else if ns ++ [n] <+: route then none else t.value? route := by
  obtain ⟨hopen, ht', hkind⟩ := kind?_add (fun _ => ht) h
  have hclear : ∀ route, route <+: ns → t.value? route = none := by
    intro route hpre
    rw [value?_eq]
    rcases eq_nil_or_concat route with rfl | ⟨route, s, rfl⟩
    · cases t with
      | folder _ _ => rfl
      | leaf _ _ => cases ht
    · rw [concat_eq_append] at hpre ⊢
      rcases hopen route s hpre with hk | ⟨hk, -⟩ <;> rw [hk] <;> rfl
  refine ⟨ht', hclear, fun route => ?_⟩
  rw [value?_eq, hkind]
  split
  · rfl
  split
  · rfl
  split
  · rename_i hpre
    rw [hclear route hpre]
    rfl
  · rw [value?_eq]

end Package

end ModelGraph
