/-
# Databases that include themselves

Each database is searched for a walk back to itself, in the order of paths. The bound on the
depth of the search counts all elements, and what is included but is no database has no
includes; so no search is cut short. The first database with a walk is the first of all that
lie on a cycle, and the walk is a chain of includes.

Key definitions: `Relational.databases`.
Key theorems: `Relational.checkIncludes_cases`, `Relational.include_cycles_rejected`.
-/
import ModelGraph.Proofs.Model.Growth
import ModelGraph.Proofs.Search.Cycle
import ModelGraph.Relational.Database

namespace ModelGraph

open List
namespace Relational

open Relation Model Search

variable {m : Model} {e : Element} {p q : String}

def databases (m : Model) : List Element :=
  (m.elements.filter fun e => (m.database? e.path).isSome).mergeSort fun a b => a.path ≤ b.path

theorem mem_databases : e ∈ databases m ↔ e ∈ m.elements ∧ (m.database? e.path).isSome := by
  rw [databases, mem_mergeSort, mem_filter]

theorem databases_sorted (m : Model) : (databases m).Pairwise fun a b => a.path ≤ b.path := by
  have h : (databases m).Pairwise fun a b => decide (a.path ≤ b.path) = true := by
    refine pairwise_mergeSort (fun a b c hab hbc => ?_) (fun a b => ?_) _
    · simp only [decide_eq_true_eq] at hab hbc ⊢
      exact String.le_trans hab hbc
    · simpa using String.le_total a.path b.path
  exact h.imp fun hab => of_decide_eq_true hab

theorem exists_database (h : (m.database? p).isSome) : ∃ e ∈ databases m, e.path = p := by
  have hdatabase := h
  unfold database? at h
  split at h
  · rename_i x hx
    have hpath := path_of_declared? hx
    exact ⟨_, mem_databases.2 ⟨mem_of_declared? hx, by rwa [hpath]⟩, hpath⟩
  · cases h

theorem isSome_of_include (h : q ∈ m.databaseIncludes p) : (m.database? p).isSome := by
  unfold databaseIncludes at h
  split at h
  · rename_i hd
    rw [hd]
    rfl
  · cases h

/-! ### The search -/

theorem closedToLeaves (m : Model) : ClosedToLeaves m.databaseIncludes ((databases m).map (·.path)) := by
  intro x _ y _
  rcases hd : m.database? y with _ | d
  · right
    rw [databaseIncludes, hd]
  · left
    obtain ⟨e, he, rfl⟩ := exists_database (by rw [hd]; rfl)
    exact mem_map_of_mem he

theorem length_databases (m : Model) : ((databases m).map (·.path)).length < m.elements.length + 1 := by
  rw [length_map, databases, length_mergeSort]
  exact Nat.lt_succ_of_le (length_filter_le _ _)

/-- What the check comes to: no database has a walk back to itself, or it fails at the first
that has one. -/
theorem checkIncludes_cases (m : Model) :
    (∀ e ∈ databases m, ¬ TransGen (Edge m.databaseIncludes) e.path e.path) ∧
        checkIncludes m = .ok ((), m) ∨
      ∃ before e after walk, databases m = before ++ e :: after ∧
        (∀ b ∈ before, ¬ TransGen (Edge m.databaseIncludes) b.path b.path) ∧
        Circuit (Edge m.databaseIncludes) e.path walk ∧
        checkIncludes m = .error (.of e.span (.databaseCycle walk)) := by
  have hback : ∀ e ∈ databases m, (walkBack? m.databaseIncludes (m.elements.length + 1) e.path).map
      (fun walk => (e, walk)) = none → ¬ TransGen (Edge m.databaseIncludes) e.path e.path := by
    intro e he hnone hcycle
    have hsome := walkBack?_isSome (closedToLeaves m) (mem_map_of_mem he) (length_databases m) hcycle
    rw [Option.map_eq_none_iff.1 hnone] at hsome
    cases hsome
  rcases hfind : (databases m).findSome? fun e =>
      (walkBack? m.databaseIncludes (m.elements.length + 1) e.path).map fun walk => (e, walk)
    with _ | ⟨e, walk⟩
  · have hcheck : checkIncludes m = .ok ((), m) := by
      unfold databases at hfind
      simp only [checkIncludes, hfind]
    exact .inl ⟨fun e he => hback e he (findSome?_eq_none_iff.1 hfind e he), hcheck⟩
  · have hcheck : checkIncludes m = .error (.of e.span (.databaseCycle walk)) := by
      unfold databases at hfind
      simp only [checkIncludes, hfind]
      rfl
    obtain ⟨before, x, after, hsplit, hx, hbefore⟩ := findSome?_eq_some_iff.1 hfind
    obtain ⟨_, hwalk, hpair⟩ := Option.map_eq_some_iff.1 hx
    cases hpair
    have hmem : ∀ b ∈ before ++ e :: after, b ∈ databases m := fun b hb => hsplit ▸ hb
    exact .inr ⟨before, e, after, walk, hsplit,
      fun b hb => hback b (hmem b (mem_append_left _ hb)) (hbefore b hb),
      circuit_of_walkBack? (closedToLeaves m) (mem_map_of_mem (hmem e (by simp)))
        (length_databases m) hwalk, hcheck⟩

/-- **Databases that include themselves are rejected, and no others.** The check fails if some
database reaches itself, with a chain of includes from the first that does back to it. The
search that has no bound on its depth comes to an end at every database, with the same walk. -/
theorem include_cycles_rejected (m : Model) :
    ((∃ f, checkIncludes m = .error f) ↔ ∃ p, TransGen (Edge m.databaseIncludes) p p) ∧
    (∀ f, checkIncludes m = .error f → ∃ e ∈ m.elements, (m.database? e.path).isSome ∧ ∃ inner,
      f = .of e.span (.databaseCycle (e.path :: (inner ++ [e.path]))) ∧
      List.IsChain (Edge m.databaseIncludes) (e.path :: (inner ++ [e.path])) ∧
      ∀ p, TransGen (Edge m.databaseIncludes) p p → e.path ≤ p) ∧
    ∀ p, (m.database? p).isSome → ∃ seen walk, Explores m.databaseIncludes p (m.databaseIncludes p) [] seen walk ∧
      walkBack? m.databaseIncludes (m.elements.length + 1) p = walk.map (p :: ·) := by
  -- Whatever lies on a cycle is a database.
  have hlisted : ∀ p, TransGen (Edge m.databaseIncludes) p p → ∃ e ∈ databases m, e.path = p := by
    intro p hp
    obtain ⟨q, hpq, -⟩ := TransGen.head'_iff.1 hp
    exact exists_database (isSome_of_include hpq)
  rw [← and_assoc]
  constructor
  · rcases checkIncludes_cases m with ⟨hnone, hok⟩ | ⟨before, e, after, walk, hsplit, hbefore, hcircuit, herror⟩
    · refine ⟨iff_of_false ?_ ?_, fun f hf => ?_⟩
      · rintro ⟨f, hf⟩
        cases hok.symm.trans hf
      · rintro ⟨p, hp⟩
        obtain ⟨e, he, rfl⟩ := hlisted p hp
        exact hnone e he hp
      · cases hok.symm.trans hf
    · refine ⟨iff_of_true ⟨_, herror⟩ ⟨_, hcircuit.transGen⟩, fun f hf => ?_⟩
      cases herror.symm.trans hf
      obtain ⟨inner, rfl, hchain, -⟩ := hcircuit
      have he : e ∈ databases m := by
        rw [hsplit]
        simp
      obtain ⟨hmem, hdatabase⟩ := mem_databases.1 he
      refine ⟨e, hmem, hdatabase, inner, rfl, hchain, fun p hp => ?_⟩
      obtain ⟨x, hx, rfl⟩ := hlisted p hp
      have hsorted := databases_sorted m
      rw [hsplit, pairwise_append, pairwise_cons] at hsorted
      rw [hsplit, mem_append, mem_cons] at hx
      rcases hx with hx | rfl | hx
      · exact absurd hp (hbefore x hx)
      · exact String.le_refl _
      · exact hsorted.2.1.1 x hx
  · intro p hp
    obtain ⟨e, he, rfl⟩ := exists_database hp
    exact walkBack?_explores (closedToLeaves m) (mem_map_of_mem he) (length_databases m)

end Relational
end ModelGraph
