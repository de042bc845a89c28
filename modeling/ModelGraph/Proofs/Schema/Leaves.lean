/-
# The leaves of a violation

What a reader is shown of a violation are the leaves of its tree that say something, from left to
right. The loop that finds them keeps the trees it has not taken apart yet on a stack, whose top is
the last of a list, and puts causes on it from the last to the first. What it has found, with
the leaves of the trees that are left, is the same at each turn, and a turn takes one violation off.

Key definitions: `Violation.ends`, `Violation.Sweep`. Key theorem: `Violation.sweep_finds_ends`.
-/
import Mathlib.Logic.Function.Iterate
import ModelGraph.Schema.Violation

namespace ModelGraph
namespace Violation

mutual

/-- The violations without causes in a tree, from left to right. -/
def ends : Violation → List Violation
  | mk p t [] => [mk p t []]
  | mk _ _ (c :: cs) => ends c ++ endsOf cs

def endsOf : List Violation → List Violation
  | [] => []
  | v :: vs => ends v ++ endsOf vs

end

theorem endsOf_append (vs ws : List Violation) : endsOf (vs ++ ws) = endsOf vs ++ endsOf ws := by
  induction vs with
  | nil => rfl
  | cons v vs ih => simp [endsOf, ih]

/-- **The trees on a stack end in what it is flattened to.** -/
theorem flatten_eq (stack : List Violation) : flatten stack = (endsOf stack).flatMap shown := by
  fun_induction flatten with
  | case1 => rfl
  | case2 p t rest ih => simp [endsOf, ends, ih]
  | case3 p t c cs rest ih =>
    rw [ih, endsOf_append]
    simp [endsOf, ends]

/-- The trees that are left, the top last, and what has been found. -/
structure Sweep where
  stack : List Violation
  found : List SchemaError

def Sweep.turn (s : Sweep) : Sweep :=
  match s.stack.getLast? with
  | none => s
  | some v =>
    if v.causes.isEmpty then { stack := s.stack.dropLast, found := s.found ++ v.shown }
    else { s with stack := s.stack.dropLast ++ v.causes.reverse }

theorem turn_leaf (p : List String) (t : String) (rest : List Violation) (found : List SchemaError) :
    Sweep.turn ⟨(mk p t [] :: rest).reverse, found⟩ = ⟨rest.reverse, found ++ shown (mk p t [])⟩ := by
  simp [Sweep.turn, causes]

theorem turn_group (p : List String) (t : String) (c : Violation) (cs rest : List Violation)
    (found : List SchemaError) :
    Sweep.turn ⟨(mk p t (c :: cs) :: rest).reverse, found⟩ = ⟨(c :: cs ++ rest).reverse, found⟩ := by
  simp [Sweep.turn, causes]

/-- **A run ends.** It takes a turn for each violation on the stack. -/
theorem turn_run (stack : List Violation) (found : List SchemaError) :
    Sweep.turn^[sizes stack] ⟨stack.reverse, found⟩ = ⟨[], found ++ flatten stack⟩ := by
  fun_induction flatten generalizing found with
  | case1 => simp [sizes]
  | case2 p t rest ih =>
    rw [show sizes (mk p t [] :: rest) = sizes rest + 1 by simp [sizes, size, Nat.add_comm],
      Function.iterate_succ_apply, turn_leaf, ih, List.append_assoc]
  | case3 p t c cs rest ih =>
    have hsizes : sizes (mk p t (c :: cs) :: rest) = sizes (c :: cs ++ rest) + 1 := by
      simp only [sizes, size, List.cons_append, sizes_append]
      omega
    rw [hsizes, Function.iterate_succ_apply, turn_group, ih]

/-- **The loop finds the ends of the tree.** -/
theorem sweep_finds_ends (v : Violation) :
    v.leaves = (v.ends.filter fun e => e.text ≠ "").map (fun e => { path := pointer e.place, message := e.text }) ∧
      Sweep.turn^[v.size] ⟨[v], []⟩ = ⟨[], v.leaves⟩ := by
  have hshown (es : List Violation) : es.flatMap shown =
      (es.filter fun e => e.text ≠ "").map fun e => { path := pointer e.place, message := e.text } := by
    induction es with
    | nil => rfl
    | cons e es ih =>
      obtain ⟨p, t, cs⟩ := e
      by_cases ht : t = "" <;> simp_all [shown, text, place]
  have hends : endsOf [v] = v.ends := List.append_nil _
  have hrun := turn_run [v] []
  exact ⟨by rw [leaves, flatten_eq, hends, hshown], hrun⟩

end Violation
end ModelGraph
