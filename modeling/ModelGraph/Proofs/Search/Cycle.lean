/-
# The cycle that a search reports

The search for a walk goes into each node once, also where a branch has failed before. What a
failed branch has seen is closed under edges and does not lead to the target, so nothing is
lost; and a walk that is found meets no node twice. The depth to which the search goes is
bounded by the number of nodes that have edges, so it has an end without a bound as well.

A group of nodes that reach each other has a cycle if it has two nodes or an edge to itself.
Then all its nodes lie on cycles within it. So the walk that is reported starts at the first
node on a cycle.

Key definitions: `Search.Explores`, `Search.Circuit`.
Key theorems: `Search.walkBack?_isSome`, `Search.isCyclic_iff`, `Search.exists_firstCycle?`.
-/
import Mathlib.Data.List.Chain
import Mathlib.Order.WellFoundedSet
import ModelGraph.Proofs.Search.Components

namespace ModelGraph

open Relation List Option

theorem wellFounded_of_acyclic {α : Type} {R : α → α → Prop} (univ : List α)
    (hR : ∀ {a b}, R a b → b ∈ univ) (h : ∀ a, ¬ TransGen R a a) : WellFounded R := by
  have : IsStrictOrder α (TransGen R) := { irrefl := h, trans := fun _ _ _ => TransGen.trans }
  have hwf := Set.wellFoundedOn_iff.1 ((finite_toSet univ).wellFoundedOn (r := TransGen R))
  refine ⟨fun b => ?_⟩
  induction b using hwf.induction with
  | _ b ih =>
    refine ⟨b, fun a hab => ?_⟩
    by_cases ha : a ∈ univ
    · exact ih a ⟨.single hab, ha, hR hab⟩
    · exact ⟨a, fun c hca => absurd (hR hca) ha⟩

namespace Search

variable {α : Type} {next : α → List α} {univ nodes walk g : List α} {a b x target : α}

/-- A walk from `a` along a relation that ends at a target. -/
def WalkTo (R : α → α → Prop) (target a : α) (walk : List α) : Prop :=
  List.IsChain R (a :: walk) ∧ walk.getLast? = some target

theorem WalkTo.transGen {R : α → α → Prop} : ∀ {walk : List α} {a : α}, WalkTo R target a walk →
    TransGen R a target
  | [], _, ⟨_, hlast⟩ => by cases hlast
  | [b], a, ⟨hchain, hlast⟩ => by
    cases hlast
    exact .single (isChain_cons_cons.1 hchain).1
  | b :: c :: walk, a, ⟨hchain, hlast⟩ => by
    obtain ⟨hab, hrest⟩ := isChain_cons_cons.1 hchain
    exact .head hab (WalkTo.transGen ⟨hrest, hlast⟩)

/-- A walk from a node back to itself that meets no node twice on its way. -/
def Circuit (R : α → α → Prop) (a : α) (walk : List α) : Prop :=
  ∃ inner, walk = a :: (inner ++ [a]) ∧ List.IsChain R walk ∧ (a :: inner).Nodup

theorem Circuit.walkTo {R : α → α → Prop} (h : Circuit R a walk) :
    ∃ rest, walk = a :: rest ∧ WalkTo R a a rest := by
  obtain ⟨inner, rfl, hchain, -⟩ := h
  exact ⟨inner ++ [a], rfl, hchain, getLast?_concat⟩

theorem Circuit.transGen {R : α → α → Prop} (h : Circuit R a walk) : TransGen R a a := by
  obtain ⟨_, -, hwalk⟩ := h.walkTo
  exact hwalk.transGen

theorem Circuit.mono {R S : α → α → Prop} (h : Circuit R a walk) (hRS : ∀ a b, R a b → S a b) :
    Circuit S a walk := by
  obtain ⟨inner, hwalk, hchain, hnodup⟩ := h
  exact ⟨inner, hwalk, hchain.imp hRS, hnodup⟩

/-! ### The search for a walk, without a bound -/

/-- The search for a walk through one of some neighbours to a target: what was seen before it
and after it, and the walk. -/
inductive Explores (next : α → List α) (target : α) :
    List α → List α → List α → Option (List α) → Prop where
  | done {seen} : Explores next target [] seen seen none
  | hit {bs seen} : Explores next target (target :: bs) seen seen (some [target])
  | skip {b bs seen t r} : b ≠ target → b ∈ seen → Explores next target bs seen t r →
      Explores next target (b :: bs) seen t r
  | found {b bs seen t walk} : b ≠ target → b ∉ seen →
      Explores next target (next b) (b :: seen) t (some walk) →
      Explores next target (b :: bs) seen t (some (b :: walk))
  | back {b bs seen t u r} : b ≠ target → b ∉ seen →
      Explores next target (next b) (b :: seen) t none → Explores next target bs t u r →
      Explores next target (b :: bs) seen u r

namespace Explores

variable {bs s t : List α} {r : Option (List α)}

section

variable (h : Explores next target bs s t r)
include h

theorem subset : s ⊆ t := by
  induction h with
  | done | hit => exact List.Subset.refl _
  | skip _ _ _ ih => exact ih
  | found _ _ _ ih => exact (cons_subset.1 ih).2
  | back _ _ _ _ ih ih' => exact List.Subset.trans (cons_subset.1 ih).2 ih'

theorem walk_found : ∀ {a walk}, bs ⊆ next a → r = some walk →
    ∃ inner, walk = inner ++ [target] ∧ List.IsChain (Edge next) (a :: walk) ∧
      (target :: inner).Nodup ∧ ∀ x ∈ inner, x ∉ s := by
  induction h with
  | done => exact fun _ h => by cases h
  | hit =>
    intro a walk hbs hr
    cases hr
    exact ⟨[], rfl, isChain_cons_cons.2 ⟨hbs (.head _), isChain_singleton _⟩,
      nodup_singleton _, forall_mem_nil _⟩
  | skip _ _ _ ih => exact fun hbs hr => ih (subset_of_cons_subset hbs) hr
  | @found b _ _ _ _ hne hnew _ ih =>
    intro a walk hbs hr
    cases hr
    obtain ⟨inner, rfl, hchain, hnodup, havoid⟩ := ih (List.Subset.refl _) rfl
    obtain ⟨htarget, hinner⟩ := nodup_cons.1 hnodup
    have hb : b ∉ inner := fun hb => havoid b hb (.head _)
    refine ⟨b :: inner, rfl, isChain_cons_cons.2 ⟨hbs (.head _), hchain⟩,
      nodup_cons.2 ⟨by simp [hne.symm, htarget], nodup_cons.2 ⟨hb, hinner⟩⟩, fun x hx => ?_⟩
    rcases mem_cons.1 hx with rfl | hx
    · exact hnew
    · exact fun hs => havoid x hx (.tail _ hs)
  | back _ _ h _ _ ih =>
    intro a walk hbs hr
    obtain ⟨inner, hwalk, hchain, hnodup, havoid⟩ := ih (subset_of_cons_subset hbs) hr
    exact ⟨inner, hwalk, hchain, hnodup, fun x hx hs =>
      havoid x hx (h.subset (.tail _ hs))⟩

theorem missed : r = none →
    bs ⊆ t ∧ target ∉ bs ∧ Filled next s t ∧ ∀ x ∈ t, x ∉ s → target ∉ next x := by
  induction h with
  | done => exact fun _ => ⟨nil_subset _, not_mem_nil, fun _ h hs => absurd h hs,
      fun _ h hs => absurd h hs⟩
  | hit => exact fun h => by cases h
  | skip hne hseen h ih =>
    intro hr
    obtain ⟨hsub, htarget, hrest⟩ := ih hr
    exact ⟨cons_subset.2 ⟨h.subset hseen, hsub⟩, by simp [hne.symm, htarget], hrest⟩
  | found => exact fun h => by cases h
  | @back b bs s t u _ hne hnew h k ih ih' =>
    intro hr
    obtain ⟨hnext, hb, hfilled, hmissed⟩ := ih rfl
    obtain ⟨hsub, htarget, hfilled', hmissed'⟩ := ih' hr
    have hbt : b ∈ t := h.subset (.head _)
    -- What is new is `b`, or what the search from `b` saw, or what was seen after it.
    have hcases : ∀ x ∈ u, x ∉ s → (∀ y ∈ next x, y ∈ u) ∧ target ∉ next x := by
      intro x hx hs
      by_cases hxt : x ∈ t
      · by_cases hxb : x = b
        · rw [hxb]
          exact ⟨fun y hy => k.subset (hnext hy), hb⟩
        · have hxs : x ∉ b :: s := by simp [hxb, hs]
          exact ⟨fun y hy => k.subset (hfilled x hxt hxs y hy), hmissed x hxt hxs⟩
      · exact ⟨hfilled' x hx hxt, hmissed' x hx hxt⟩
    exact ⟨cons_subset.2 ⟨k.subset hbt, hsub⟩, by simp [hne.symm, htarget],
      fun x hx hs => (hcases x hx hs).1, fun x hx hs => (hcases x hx hs).2⟩

end

end Explores

/-- Edges lead to nodes of a list, or to nodes without edges. -/
def ClosedToLeaves (next : α → List α) (univ : List α) : Prop :=
  ∀ x ∈ univ, ∀ y ∈ next x, y ∈ univ ∨ next y = []

theorem Closed.toLeaves (h : Closed next univ) : ClosedToLeaves next univ :=
  fun x hx y hy => .inl (h x hx y hy)

section Visit

variable [BEq α]

def walkStep (next : α → List α) (target : α) (n : Nat) (found : List α × Option (List α)) (b : α) :
    List α × Option (List α) :=
  match found with
  | (seen, some walk) => (seen, some walk)
  | (seen, none) =>
    if b == target then (seen, some [b])
    else if seen.contains b then (seen, none)
    else match walkTo next target n (b :: seen) b with
      | (seen, some walk) => (seen, some (b :: walk))
      | (seen, none) => (seen, none)

theorem walkTo_succ (next : α → List α) (target : α) (n : Nat) (s : List α) (a : α) :
    walkTo next target (n + 1) s a = (next a).foldl (walkStep next target n) (s, none) := rfl

theorem foldl_walkStep_some (next : α → List α) (target : α) (n : Nat) (s walk : List α) :
    ∀ bs : List α, bs.foldl (walkStep next target n) (s, some walk) = (s, some walk)
  | [] => rfl
  | _ :: bs => foldl_walkStep_some next target n s walk bs

theorem walkTo_leaf (h : next a = []) (target : α) (n : Nat) (s : List α) :
    walkTo next target n s a = (s, none) := by
  cases n with
  | zero => rfl
  | succ n =>
    rw [walkTo_succ, h]
    rfl

variable [LawfulBEq α]

theorem foldl_walkStep_explores (n : Nat)
    (hw : ∀ s a, a ∈ univ → room univ s < n →
      Explores next target (next a) s (walkTo next target n s a).1 (walkTo next target n s a).2) :
    ∀ (bs s : List α), (∀ b ∈ bs, b ∈ univ ∨ next b = []) → room univ s ≤ n →
      Explores next target bs s (bs.foldl (walkStep next target n) (s, none)).1
        (bs.foldl (walkStep next target n) (s, none)).2
  | [], _, _, _ => .done
  | b :: bs, s, hb, hr => by
    have hbs : ∀ c ∈ bs, c ∈ univ ∨ next c = [] := fun c hc => hb c (.tail _ hc)
    rw [foldl_cons]
    by_cases e : b = target
    · rw [walkStep, if_pos (by simp [e]), foldl_walkStep_some, e]
      exact .hit
    by_cases hs : b ∈ s
    · have hstep : walkStep next target n (s, none) b = (s, none) := by simp [walkStep, e, hs]
      rw [hstep]
      exact .skip e hs (foldl_walkStep_explores n hw bs s hbs hr)
    have hdeep : Explores next target (next b) (b :: s) (walkTo next target n (b :: s) b).1
        (walkTo next target n (b :: s) b).2 := by
      rcases hb b (.head _) with hmem | hleaf
      · have hroom := room_cons_lt hmem hs
        exact hw (b :: s) b hmem (by omega)
      · rw [walkTo_leaf hleaf, hleaf]
        exact .done
    rcases hres : walkTo next target n (b :: s) b with ⟨t, _ | walk⟩
    · have hstep : walkStep next target n (s, none) b = (t, none) := by simp [walkStep, e, hs, hres]
      rw [hres] at hdeep
      rw [hstep]
      have hst : s ⊆ t := (cons_subset.1 hdeep.subset).2
      exact .back e hs hdeep (foldl_walkStep_explores n hw bs t hbs (Nat.le_trans (room_mono hst) hr))
    · have hstep : walkStep next target n (s, none) b = (t, some (b :: walk)) := by
        simp [walkStep, e, hs, hres]
      rw [hres] at hdeep
      rw [hstep, foldl_walkStep_some]
      exact .found e hs hdeep

/-- **A search whose depth is not below the number of nodes is the search without a bound.** -/
theorem walkTo_explores (hu : ClosedToLeaves next univ) : ∀ (n : Nat) (s : List α) (a : α), a ∈ univ →
    room univ s < n →
    Explores next target (next a) s (walkTo next target n s a).1 (walkTo next target n s a).2
  | 0, _, _, _, hr => absurd hr (Nat.not_lt_zero _)
  | n + 1, s, a, ha, hr => by
    exact foldl_walkStep_explores n (walkTo_explores hu n) (next a) s (hu a ha) (by omega)

variable {bound : Nat}

section

variable (hu : ClosedToLeaves next univ)
include hu

theorem walkBack?_explores (ha : a ∈ univ) (hb : univ.length < bound) :
    ∃ seen r, Explores next a (next a) [] seen r ∧ walkBack? next bound a = r.map (a :: ·) :=
  ⟨_, _, walkTo_explores hu bound [] a ha (Nat.lt_of_le_of_lt (room_le_length _ _) hb), rfl⟩

theorem circuit_of_walkBack? (ha : a ∈ univ) (hb : univ.length < bound)
    (h : walkBack? next bound a = some walk) : Circuit (Edge next) a walk := by
  obtain ⟨seen, r, hsearch, hback⟩ := walkBack?_explores hu ha hb
  rw [hback] at h
  obtain ⟨rest, rfl, rfl⟩ := map_eq_some_iff.1 h
  obtain ⟨inner, rfl, hchain, hnodup, -⟩ := hsearch.walk_found (List.Subset.refl _) rfl
  exact ⟨inner, rfl, hchain, hnodup⟩

/-- **A node on a cycle has a walk back to itself.** -/
theorem walkBack?_isSome (ha : a ∈ univ) (hb : univ.length < bound)
    (h : TransGen (Edge next) a a) : (walkBack? next bound a).isSome := by
  obtain ⟨seen, r, hsearch, hback⟩ := walkBack?_explores hu ha hb
  rw [hback, isSome_map, isSome_iff_ne_none]
  intro hnone
  obtain ⟨hsub, hne, hfilled, hmissed⟩ := hsearch.missed hnone
  -- Every node before the last edge of the cycle is `a` or was seen, and leads to `a`.
  obtain ⟨x, hax, hxa⟩ := TransGen.tail'_iff.1 h
  rcases ReflTransGen.cases_head hax with rfl | ⟨y, hay, hyx⟩
  · exact hne hxa
  · have hx := reach_of_filled hfilled hyx (hsub hay)
    exact hmissed x hx not_mem_nil hxa

end

/-! ### The first node on a cycle -/

section Groups

variable (hu : Closed next nodes) (hb : nodes.length < bound)
include hu hb

theorem mem_component_iff (hg : g ∈ components next bound nodes) (ha : a ∈ g) : x ∈ g ↔ Linked next a x := by
  obtain ⟨r, -, hr⟩ := (components_sound hu hb.le).2.2 g hg
  have har := (hr a).1 ha
  rw [hr x]
  exact ⟨har.symm.trans, har.trans⟩

/-- **A group has a cycle if each of its nodes lies on one.** -/
theorem isCyclic_iff (hg : g ∈ components next bound nodes) (ha : a ∈ g) :
    isCyclic next g = true ↔ TransGen (Edge next) a a := by
  have hnodup : g.Nodup := (nodup_flatten.1 (components_sound hu hb.le).1).1 g hg
  obtain ⟨c, rest, rfl⟩ := exists_cons_of_ne_nil (ne_nil_of_mem ha)
  have hca : Linked next a c := (mem_component_iff hu hb hg ha).1 (.head _)
  have hac : TransGen (Edge next) a a ↔ TransGen (Edge next) c c :=
    ⟨fun h => .trans_right hca.2 (h.trans_left hca.1), fun h => .trans_right hca.1 (h.trans_left hca.2)⟩
  rw [hac]
  cases rest with
  | nil =>
    -- A group of one node that lies on a cycle has an edge to itself.
    have hself : isCyclic next [c] = true ↔ c ∈ next c := by simp [isCyclic]
    rw [hself]
    refine ⟨fun h => .single h, fun h => ?_⟩
    obtain ⟨y, hcy, hyc⟩ := TransGen.head'_iff.1 h
    have hy : y ∈ [c] := (mem_component_iff hu hb hg (.head _)).2 ⟨.single hcy, hyc⟩
    rwa [mem_singleton.1 hy] at hcy
  | cons y rest =>
    refine ⟨fun _ => ?_, fun _ => rfl⟩
    have hne : y ≠ c := fun e => (nodup_cons.1 hnodup).1 (e ▸ (.head _))
    obtain ⟨hto, hfrom⟩ := (mem_component_iff hu hb hg (.head _)).1
      (mem_cons_of_mem c (mem_cons_self))
    exact ((reflTransGen_iff_eq_or_transGen.1 hto).resolve_left hne).trans_left hfrom

omit hu hb [LawfulBEq α] in
theorem cycle_in_group [LawfulBEq α] (hg : ∀ x, Linked next a x → x ∈ g)
    (h : TransGen (Edge next) a x) (hback : ReflTransGen (Edge next) x a) :
    TransGen (Edge fun y => (next y).filter g.contains) a x := by
  have hstep {y z : α} (e : z ∈ next y) (hz : z ∈ g) : z ∈ (next y).filter g.contains :=
    mem_filter.2 ⟨e, contains_iff_mem.2 hz⟩
  induction h with
  | single e => exact .single (hstep e (hg _ ⟨.single e, hback⟩))
  | tail hz e ih => exact (ih (.head e hback)).tail (hstep e (hg _ ⟨(hz.tail e).to_reflTransGen, hback⟩))

theorem find?_cyclic (ha : a ∈ nodes) :
    (∀ g, ((components next bound nodes).filter (isCyclic next)).find? (·.contains a) = some g →
      TransGen (Edge next) a a ∧ ∀ x, x ∈ g ↔ Linked next a x) ∧
    (TransGen (Edge next) a a →
      (((components next bound nodes).filter (isCyclic next)).find? (·.contains a)).isSome) := by
  constructor
  · intro g hg
    obtain ⟨hmem, hcyclic⟩ := mem_filter.1 (mem_of_find?_eq_some hg)
    have hag : a ∈ g := by simpa using find?_some hg
    exact ⟨(isCyclic_iff hu hb hmem hag).1 hcyclic, fun x => mem_component_iff hu hb hmem hag⟩
  · intro h
    obtain ⟨g, hg, hag⟩ := mem_flatten.1 (((components_sound hu hb.le).2.1 a).2 ha)
    exact find?_isSome.2 ⟨g, mem_filter.2 ⟨hg, (isCyclic_iff hu hb hg hag).2 h⟩,
      contains_iff_mem.2 hag⟩

/-- **The cycle that is reported goes through the first node on a cycle.** -/
theorem exists_firstCycle? {pre post : List α} (hsplit : nodes = pre ++ x :: post)
    (hpre : ∀ c ∈ pre, ¬ TransGen (Edge next) c c) (hx : TransGen (Edge next) x x) :
    ∃ walk, firstCycle? next bound nodes = some walk ∧ Circuit (Edge next) x walk := by
  have hxn : x ∈ nodes := hsplit ▸ mem_append_right _ (.head _)
  obtain ⟨g, hg⟩ := isSome_iff_exists.1 ((find?_cyclic hu hb hxn).2 hx)
  have hlinked := ((find?_cyclic hu hb hxn).1 g hg).2
  have hcycle := cycle_in_group (fun y hy => (hlinked y).2 hy) hx .refl
  have hclosed : Closed (fun y => (next y).filter g.contains) nodes :=
    fun y hy z hz => hu y hy z (mem_filter.1 hz).1
  obtain ⟨walk, hwalk⟩ := isSome_iff_exists.1 (walkBack?_isSome hclosed.toLeaves hxn hb hcycle)
  refine ⟨walk, ?_, (circuit_of_walkBack? hclosed.toLeaves hxn hb hwalk).mono fun _ _ he =>
    mem_of_mem_filter he⟩
  have hfirst : nodes.findSome? (fun a =>
      (((components next bound nodes).filter (isCyclic next)).find? (·.contains a)).map fun g => (a, g)) =
        some (x, g) := by
    refine findSome?_eq_some_iff.2 ⟨pre, x, post, hsplit, by rw [hg]; rfl, fun c hc => ?_⟩
    rw [map_eq_none_iff, eq_none_iff_forall_not_mem]
    have hcn : c ∈ nodes := hsplit ▸ mem_append_left _ hc
    exact fun g' hg' => hpre c hc ((find?_cyclic hu hb hcn).1 g' hg').1
  unfold firstCycle?
  simp only [hfirst, bind_some, hwalk]

theorem firstCycle?_eq_none (h : ∀ a ∈ nodes, ¬ TransGen (Edge next) a a) :
    firstCycle? next bound nodes = none := by
  have hfirst : nodes.findSome? (fun a =>
      (((components next bound nodes).filter (isCyclic next)).find? (·.contains a)).map fun g => (a, g)) =
        none := by
    refine findSome?_eq_none_iff.2 fun a ha => ?_
    rw [map_eq_none_iff, eq_none_iff_forall_not_mem]
    exact fun g hg => h a ha ((find?_cyclic hu hb ha).1 g hg).1
  unfold firstCycle?
  simp only [hfirst, bind_none]

theorem firstCycle?_cases :
    (∀ a ∈ nodes, ¬ TransGen (Edge next) a a) ∧ firstCycle? next bound nodes = none ∨
      ∃ pre x post walk, nodes = pre ++ x :: post ∧ (∀ c ∈ pre, ¬ TransGen (Edge next) c c) ∧
        firstCycle? next bound nodes = some walk ∧ Circuit (Edge next) x walk := by
  classical
  rcases hfind : nodes.find? fun a => TransGen (Edge next) a a with _ | x
  · have hnone : ∀ a ∈ nodes, ¬ TransGen (Edge next) a a := by simpa using find?_eq_none.1 hfind
    exact .inl ⟨hnone, firstCycle?_eq_none hu hb hnone⟩
  · obtain ⟨hx, pre, post, hsplit, hpre⟩ := find?_eq_some_iff_append.1 hfind
    have hfirst : ∀ c ∈ pre, ¬ TransGen (Edge next) c c := by simpa using hpre
    obtain ⟨walk, hwalk⟩ := exists_firstCycle? hu hb hsplit hfirst (by simpa using hx)
    exact .inr ⟨pre, x, post, walk, hsplit, hfirst, hwalk⟩

end Groups

omit [LawfulBEq α] in
theorem firstCycle?_start (h : firstCycle? next bound nodes = some walk) :
    ∃ start rest, walk = start :: rest ∧ start ∈ nodes := by
  unfold firstCycle? at h
  obtain ⟨found, hfound, hwalk⟩ := bind_eq_some_iff.1 h
  obtain ⟨a, ha, hgroup⟩ := exists_of_findSome?_eq_some hfound
  obtain ⟨g, -, rfl⟩ := map_eq_some_iff.1 hgroup
  obtain ⟨rest, -, rfl⟩ := map_eq_some_iff.1 hwalk
  exact ⟨a, rest, rfl, ha⟩

/-- **The search for a cycle is right.** It finds none if no node reaches itself. Otherwise it
gives a circuit from the first of all nodes that do. -/
theorem firstCycle?_least_circuit (hu : Closed next nodes) (hb : nodes.length < bound) :
    (firstCycle? next bound nodes = none ↔ ∀ v ∈ nodes, ¬ TransGen (Edge next) v v) ∧
    ∀ path, firstCycle? next bound nodes = some path →
      ∃ start ∈ nodes, ∃ inner, path = start :: (inner ++ [start]) ∧ List.IsChain (Edge next) path ∧
        (start :: inner).Nodup ∧
        ∀ v ∈ nodes, TransGen (Edge next) v v → nodes.idxOf start ≤ nodes.idxOf v := by
  rcases firstCycle?_cases hu hb with ⟨hnone, heq⟩ | ⟨pre, x, post, walk, hsplit, hpre, heq, hcircuit⟩
  · refine ⟨iff_of_true heq hnone, fun path hpath => ?_⟩
    rw [heq] at hpath
    cases hpath
  · have hxn : x ∈ nodes := hsplit ▸ mem_append_right _ (.head _)
    refine ⟨iff_of_false (by simp [heq]) fun h => h x hxn hcircuit.transGen, fun path hpath => ?_⟩
    cases heq.symm.trans hpath
    have hx := hcircuit.transGen
    obtain ⟨inner, hwalk, hchain, hnodup⟩ := hcircuit
    refine ⟨x, hxn, inner, hwalk, hchain, hnodup, fun v _ hv => ?_⟩
    have hindex (z : α) (hz : TransGen (Edge next) z z) :
        nodes.idxOf z = pre.length + (x :: post).idxOf z := by
      rw [hsplit]
      exact idxOf_append_of_notMem fun hmem => hpre z hmem hz
    rw [hindex v hv, hindex x hx, idxOf_cons_self]
    exact Nat.add_le_add_left (Nat.zero_le _) _

/-- A graph with a node that leads to its cycles, a dead end, and edges that occur twice. -/
def tailedGraph (v : Nat) : List Nat := [[1, 1], [5, 4, 2], [3, 1], [2], [3, 4], []].getD v []

/-- The circuit starts behind the node that only leads to it, and passes the dead end by. -/
theorem firstCycle?_tailedGraph :
    firstCycle? tailedGraph 7 (List.range 6) = some [1, 4, 3, 2, 1] ∧ ¬ TransGen (Edge tailedGraph) 0 0 := by
  have hclosed : Closed tailedGraph (List.range 6) := by
    unfold Closed
    decide
  have hpath : firstCycle? tailedGraph 7 (List.range 6) = some [1, 4, 3, 2, 1] := by decide
  obtain ⟨start, -, inner, heq, -, -, hleast⟩ := (firstCycle?_least_circuit hclosed (by decide)).2 _ hpath
  refine ⟨hpath, fun hzero => ?_⟩
  have hle := hleast 0 (by decide) hzero
  rw [← (List.cons.inj heq).1] at hle
  exact absurd hle (by decide)

end Visit
end Search
end ModelGraph
