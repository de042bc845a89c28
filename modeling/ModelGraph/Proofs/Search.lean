/-
# Searches find what can be reached

Let `univ` be nodes that no edge leads out of. A search with a bound of as many steps
as `univ` has nodes left to see is not cut short: it is one that goes on to the end. What it
visits is closed under edges, and so it visits exactly what can be reached.

Key definitions: `Search.Edge`, `Search.Closed`, `Search.Visits`.
Key theorems: `Search.exists_steps`, `Search.visits_preorder`, `Search.mem_preorder`.
-/
import Mathlib.Data.List.Nodup
import Mathlib.Logic.Relation
import ModelGraph.Search

namespace ModelGraph

open List Nat
namespace Search

open Relation

variable {α : Type} {next : α → List α} {univ seen nodes t : List α} {a b x y : α} {bound : Nat}

def Edge (next : α → List α) (a b : α) : Prop := b ∈ next a

/-- No edge leads out of these nodes. -/
def Closed (next : α → List α) (univ : List α) : Prop := ∀ x ∈ univ, ∀ y ∈ next x, y ∈ univ

theorem Closed.reach (hu : Closed next univ) (h : ReflTransGen (Edge next) a b) (ha : a ∈ univ) :
    b ∈ univ := by
  induction h with
  | refl => exact ha
  | tail _ e ih => exact hu _ ih _ e

/-! ### Short walks -/

section Steps

variable {R : α → α → Prop}

/-- A walk of a number of steps. -/
inductive Steps (R : α → α → Prop) : Nat → α → α → Prop
  | refl (a : α) : Steps R 0 a a
  | head {n : Nat} {a b c : α} : R a b → Steps R n b c → Steps R (n + 1) a c

theorem reflTransGen_avoid (h : ReflTransGen (fun a b => R a b ∧ b ∈ univ) a b) :
    ReflTransGen (fun x y => R x y ∧ y ∈ univ ∧ y ≠ a) a b := by
  induction h with
  | refl => exact .refl
  | @tail y z _ e ih =>
    by_cases hz : z = a
    · rw [hz]
    · exact ih.tail ⟨e.1, e.2, hz⟩

/-- **A walk through finitely many nodes can be cut to as many steps.** -/
theorem exists_steps [DecidableEq α] : ∀ (n : Nat) (univ : List α) (a : α), univ.length ≤ n →
    ReflTransGen (fun a b => R a b ∧ b ∈ univ) a b → ∃ k ≤ n, Steps R k a b
  | n, univ, a, hn, h => by
    rcases ReflTransGen.cases_head h with rfl | ⟨c, ⟨hac, hc⟩, hcb⟩
    · exact ⟨0, zero_le n, .refl a⟩
    · have hlt : (univ.filter (· ≠ c)).length < univ.length :=
        length_filter_lt_length_iff_exists.2 ⟨c, hc, by simp⟩
      match n with
      | 0 => omega
      | n + 1 =>
        obtain ⟨k, hk, hsteps⟩ := exists_steps n (univ.filter (· ≠ c)) c (by omega)
          (ReflTransGen.mono (fun x y hxy => ⟨hxy.1, mem_filter.2 ⟨hxy.2.1, by simpa using hxy.2.2⟩⟩)
            _ _ (reflTransGen_avoid hcb))
        exact ⟨k + 1, by omega, .head hac hsteps⟩

end Steps

section Visit

variable [BEq α] [LawfulBEq α]

/-- How many nodes are left to see. -/
def room (univ seen : List α) : Nat := (univ.filter fun x => !seen.contains x).length

omit [LawfulBEq α] in
theorem room_le_length (univ seen : List α) : room univ seen ≤ univ.length :=
  length_filter_le _ _

theorem mem_of_room_eq_zero (h : room univ seen = 0) (ha : a ∈ univ) : a ∈ seen := by
  have := filter_eq_nil_iff.1 (eq_nil_of_length_eq_zero h) a ha
  simpa using this

theorem room_mono {s : List α} (h : s ⊆ t) : room univ t ≤ room univ s := by
  refine (monotone_filter_right univ fun x hx => ?_).length_le
  simp only [Bool.not_eq_true', contains_eq_mem, decide_eq_false_iff_not] at hx ⊢
  exact fun hs => hx (h hs)

theorem room_cons_lt (ha : a ∈ univ) (hs : a ∉ seen) : room univ (a :: seen) < room univ seen := by
  have h : (univ.filter fun x => !(a :: seen).contains x) =
      (univ.filter fun x => !seen.contains x).filter (· != a) := by
    rw [filter_filter]
    refine filter_congr fun x _ => ?_
    by_cases hx : x = a <;> simp [hx]
  rw [room, h]
  exact length_filter_lt_length_iff_exists.2 ⟨a, by simp [ha, hs], by simp⟩

/-! ### Depth-first visits -/

theorem visit_of_mem (next : α → List α) (n : Nat) (h : a ∈ seen) : visit next n seen a = seen := by
  cases n with
  | zero => rfl
  | succ n => simp [visit, h]

theorem visit_of_not_mem (next : α → List α) (n : Nat) (h : a ∉ seen) :
    visit next (n + 1) seen a = (next a).foldl (visit next n) (a :: seen) := by
  simp [visit, h]

/-- What holds of the nodes seen before and of one more that is reached holds of those seen in the end. -/
theorem visit_keeps (next : α → List α) {P : List α → Prop} : ∀ (n : Nat) (s : List α) (a : α),
    (∀ t x, x ∉ t → ReflTransGen (Edge next) a x → P t → P (x :: t)) → P s → P (visit next n s a)
  | 0, _, _, _, hs => hs
  | n + 1, s, a, step, hs => by
    by_cases ha : a ∈ s
    · rwa [visit_of_mem _ _ ha]
    have fold : ∀ bs : List α, bs ⊆ next a → ∀ t, P t → P (bs.foldl (visit next n) t) := by
      intro bs
      induction bs with
      | nil => exact fun _ _ ht => ht
      | cons b bs ih =>
        intro hbs t ht
        obtain ⟨hb, hbs⟩ := cons_subset.1 hbs
        exact ih hbs _ (visit_keeps next n t b (fun t x hx hbx => step t x hx (.head hb hbx)) ht)
    rw [visit_of_not_mem _ _ ha]
    exact fold _ (List.Subset.refl _) _ (step s a ha .refl hs)

theorem visit_sound (next : α → List α) (n : Nat) (s : List α) (a : α) :
    ∀ x ∈ visit next n s a, x ∈ s ∨ ReflTransGen (Edge next) a x :=
  visit_keeps next (P := fun t => ∀ x ∈ t, x ∈ s ∨ ReflTransGen (Edge next) a x) n s a
    (fun _ _ _ hx ht => forall_mem_cons.2 ⟨.inr hx, ht⟩) fun _ => .inl

theorem nodup_visit (next : α → List α) (n : Nat) (s : List α) (a : α) (hs : s.Nodup) :
    (visit next n s a).Nodup :=
  visit_keeps next n s a (fun _ _ hx _ ht => nodup_cons.2 ⟨hx, ht⟩) hs

theorem suffix_visit (next : α → List α) (n : Nat) (s : List α) (a : α) : s <:+ visit next n s a :=
  visit_keeps next n s a (fun t x _ _ ht => ht.trans (suffix_cons x t)) (suffix_refl s)

def Filled (next : α → List α) (s t : List α) : Prop := ∀ x ∈ t, x ∉ s → ∀ y ∈ next x, y ∈ t

omit [BEq α] [LawfulBEq α] in
theorem reach_of_filled (hf : Filled next [] t) (h : ReflTransGen (Edge next) a x) (ha : a ∈ t) : x ∈ t := by
  induction h with
  | refl => exact ha
  | tail _ e ih => exact hf _ ih not_mem_nil _ e

/-! ### Searches that go on to the end -/

/-- The nodes `as` are visited in turn, each with what is reached from it and is not seen before, depth
first. `new` are those that were not in `seen`, in the order of their first visits. -/
inductive Visits (next : α → List α) : (seen as new : List α) → Prop
  | nil (seen : List α) : Visits next seen [] []
  | skip {seen as new : List α} {a : α} : a ∈ seen → Visits next seen as new → Visits next seen (a :: as) new
  | enter {seen as below rest : List α} {a : α} : a ∉ seen → Visits next (a :: seen) (next a) below →
      Visits next (below.reverse ++ a :: seen) as rest → Visits next seen (a :: as) (a :: below ++ rest)

/-- **With enough room, a search is not cut short.** -/
theorem visits_foldl (hu : Closed next univ) : ∀ (n : Nat) (bs s : List α), (∀ b ∈ bs, b ∈ univ) → room univ s ≤ n →
    ∃ new, Visits next s bs new ∧ bs.foldl (visit next n) s = new.reverse ++ s
  | _, [], s, _, _ => ⟨[], .nil s, rfl⟩
  | 0, b :: bs, s, hb, hr => by
    obtain ⟨hbu, hbs⟩ := forall_mem_cons.1 hb
    have h := mem_of_room_eq_zero (le_zero.1 hr) hbu
    obtain ⟨new, hnew, heq⟩ := visits_foldl hu 0 bs s hbs hr
    exact ⟨new, .skip h hnew, heq⟩
  | n + 1, b :: bs, s, hb, hr => by
    obtain ⟨hbu, hbs⟩ := forall_mem_cons.1 hb
    by_cases h : b ∈ s
    · obtain ⟨new, hnew, heq⟩ := visits_foldl hu (n + 1) bs s hbs hr
      exact ⟨new, .skip h hnew, by rw [foldl_cons, visit_of_mem _ _ h, heq]⟩
    · have hlt := room_cons_lt hbu h
      obtain ⟨below, hbelow, heq⟩ := visits_foldl hu n (next b) (b :: s) (hu b hbu) (by omega)
      have hsub : s ⊆ below.reverse ++ b :: s := fun x hx => mem_append_right _ (.tail _ hx)
      obtain ⟨rest, hrest, heq'⟩ := visits_foldl hu (n + 1) bs (below.reverse ++ b :: s) hbs
        (Nat.le_trans (room_mono hsub) hr)
      refine ⟨b :: below ++ rest, .enter h hbelow hrest, ?_⟩
      rw [foldl_cons, visit_of_not_mem _ _ h, heq, heq']
      simp

theorem visits_preorder (hu : Closed next univ) (ha : a ∈ univ) (hb : univ.length ≤ bound) :
    Visits next [] [a] (preorder next bound a) := by
  obtain ⟨new, hnew, heq⟩ := visits_foldl hu bound [a] [] (forall_mem_singleton.2 ha)
    (Nat.le_trans (room_le_length _ _) hb)
  rw [foldl_cons, foldl_nil, append_nil] at heq
  rwa [preorder, heq, reverse_reverse]

namespace Visits

omit [BEq α] [LawfulBEq α]

variable {as new new' : List α}

/-- There is no choice in the order of a search. -/
theorem unique (h : Visits next seen as new) : ∀ {new'}, Visits next seen as new' → new = new' := by
  induction h with
  | nil => rintro _ ⟨⟩; rfl
  | skip ha _ ih =>
    rintro _ (_ | ⟨-, h⟩ | ⟨hn, -, -⟩)
    · exact ih h
    · exact absurd ha hn
  | enter hn _ _ ih ih' =>
    rintro _ (_ | ⟨ha, -⟩ | ⟨-, h, h'⟩)
    · exact absurd ha hn
    · obtain rfl := ih h
      rw [ih' h']

theorem filled (h : Visits next seen as new) :
    (∀ a ∈ as, a ∈ new ∨ a ∈ seen) ∧ ∀ x ∈ new, ∀ y ∈ next x, y ∈ new ∨ y ∈ seen := by
  induction h with
  | nil => exact ⟨forall_mem_nil _, forall_mem_nil _⟩
  | skip ha _ ih => exact ⟨forall_mem_cons.2 ⟨.inr ha, ih.1⟩, ih.2⟩
  | enter _ _ _ ih ih' =>
    grind

end Visits

/-- **The nodes of a search are those that can be reached.** -/
theorem mem_preorder (hu : Closed next univ) (ha : a ∈ univ)
    (hb : univ.length ≤ bound) : x ∈ preorder next bound a ↔ ReflTransGen (Edge next) a x := by
  obtain ⟨hmem, hfilled⟩ := (visits_preorder hu ha hb).filled
  refine ⟨fun h => ?_, fun h => reach_of_filled (fun x hx _ y hy => ?_) h ?_⟩
  · exact (visit_sound next bound [] a x (mem_reverse.1 h)).resolve_left not_mem_nil
  · exact (hfilled x hx y hy).resolve_right not_mem_nil
  · exact (hmem a (.head _)).resolve_right not_mem_nil

/-! ### The two orders of a search -/

theorem nodup_preorder (next : α → List α) (n : Nat) (a : α) : (preorder next n a).Nodup :=
  nodup_reverse.2 (nodup_visit next n [] a nodup_nil)

theorem suffix_foldl_visit (next : α → List α) (n : Nat) (bs s : List α) : s <:+ bs.foldl (visit next n) s := by
  induction bs generalizing s with
  | nil => exact suffix_refl s
  | cons b bs ih => exact (suffix_visit next n s b).trans (ih _)

theorem cons_drop_preorder (next : α → List α) (n : Nat) (a : α) :
    a :: (preorder next (n + 1) a).drop 1 = preorder next (n + 1) a := by
  have hvisit : visit next (n + 1) [] a = (next a).foldl (visit next n) [a] :=
    visit_of_not_mem next n not_mem_nil
  obtain ⟨later, hlater⟩ := suffix_foldl_visit next n (next a) [a]
  rw [preorder, hvisit, ← hlater]
  simp

theorem leave_of_mem (next : α → List α) (n : Nat) {entered left : List α} (h : a ∈ entered) :
    leave next n (entered, left) a = (entered, left) := by
  cases n with
  | zero => rfl
  | succ n => simp [leave, h]

theorem leave_of_not_mem (next : α → List α) (n : Nat) {entered left : List α} (h : a ∉ entered) :
    leave next (n + 1) (entered, left) a =
      (((next a).foldl (leave next n) (a :: entered, left)).1,
        a :: ((next a).foldl (leave next n) (a :: entered, left)).2) := by
  simp [leave, h]

theorem leave_visits (next : α → List α) : ∀ (n : Nat) (done : List α × List α) (a : α),
    (leave next n done a).1 = visit next n done.1 a ∧
      ((leave next n done a).2 ++ done.1).Perm (done.2 ++ visit next n done.1 a)
  | 0, done, _ => ⟨rfl, List.Perm.refl _⟩
  | n + 1, (entered, left), a => by
    by_cases h : a ∈ entered
    · rw [leave_of_mem _ _ h, visit_of_mem _ _ h]
      exact ⟨rfl, List.Perm.refl _⟩
    · rw [leave_of_not_mem _ _ h, visit_of_not_mem _ _ h]
      have fold : ∀ (bs : List α) (done : List α × List α),
          (bs.foldl (leave next n) done).1 = bs.foldl (visit next n) done.1 ∧
            ((bs.foldl (leave next n) done).2 ++ done.1).Perm (done.2 ++ bs.foldl (visit next n) done.1) := by
        intro bs
        induction bs with
        | nil => exact fun done => ⟨rfl, List.Perm.refl _⟩
        | cons b bs ih =>
          intro done
          obtain ⟨hb, hperm⟩ := leave_visits next n done b
          obtain ⟨hbs, hperms⟩ := ih (leave next n done b)
          rw [hb] at hbs hperms
          refine ⟨hbs, perm_iff_count.2 fun x => ?_⟩
          have hx := perm_iff_count.1 hperm x
          have hxs := perm_iff_count.1 hperms x
          simp only [foldl_cons, count_append] at hx hxs ⊢
          omega
      obtain ⟨hfold, hperm⟩ := fold (next a) (a :: entered, left)
      exact ⟨hfold, perm_middle.symm.trans hperm⟩

theorem postorder_perm_preorder (next : α → List α) (bound : Nat) (a : α) :
    (postorder next bound a).Perm (preorder next bound a) := by
  have h := (leave_visits next bound ([], []) a).2
  rw [append_nil] at h
  exact (reverse_perm _).trans (h.trans (reverse_perm _).symm)

end Visit
end Search
end ModelGraph
