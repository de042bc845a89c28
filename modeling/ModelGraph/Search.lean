/-
# Searches in a graph

A graph is given by the neighbours of each node. `preorder` lists what can be
reached, each node once, before what is reached through it, `postorder` after it.
`components` groups nodes that reach each other in one search of the graph, and
`firstCycle?` finds a walk from a node back to itself. Searches carry a bound on their
depth, for which one more than the number of nodes is enough.
-/

namespace ModelGraph
namespace Search

variable {α : Type} [BEq α]

/-- Visits a node and what is reached from it, in order, and adds what is new to
`seen`. Newer nodes stand first in `seen`. -/
def visit (next : α → List α) : Nat → List α → α → List α
  | 0, seen, _ => seen
  | fuel + 1, seen, a =>
    if seen.contains a then seen
    else (next a).foldl (visit next fuel) (a :: seen)

/-- What can be reached from a node, the node first, depth before breadth. -/
def preorder (next : α → List α) (bound : Nat) (start : α) : List α :=
  (visit next bound [] start).reverse

/-- Visits what is reached from a node, in order, then the node itself. `done` are the
nodes that were entered and the nodes that were left, both newest first. -/
def leave (next : α → List α) : Nat → List α × List α → α → List α × List α
  | 0, done, _ => done
  | fuel + 1, (entered, left), a =>
    if entered.contains a then (entered, left)
    else
      let (entered, left) := (next a).foldl (leave next fuel) (a :: entered, left)
      (entered, a :: left)

/-- What can be reached from a node, each node after what is reached through it. -/
def postorder (next : α → List α) (bound : Nat) (start : α) : List α :=
  (leave next bound ([], []) start).2.reverse

/-- What a search for groups has come to: the nodes that were entered with their numbers,
those of them that are in no group yet, both newest first, and the groups. -/
structure Grouping (α : Type) where
  numbers : List (α × Nat) := []
  pending : List α := []
  groups : List (List α) := []

namespace Grouping

/-- A new node gets the next number. -/
def enter (s : Grouping α) (a : α) : Grouping α :=
  { s with numbers := (a, s.numbers.length) :: s.numbers, pending := a :: s.pending }

/-- Makes a group of a node and of what is pending since it was entered. -/
def close (s : Grouping α) (a : α) : Grouping α :=
  { s with
    pending := (s.pending.dropWhile (· != a)).drop 1
    groups := s.groups ++ [s.pending.takeWhile (· != a) ++ [a]] }

/-- Goes on to a neighbour, with the lowest number that was met so far. A new node is
searched, and a node of a group does not count. -/
def meet (search : Grouping α → α → Grouping α × Nat) (found : Grouping α × Nat) (a : α) :
    Grouping α × Nat :=
  match found.1.numbers.lookup a with
  | none =>
    let deeper := search found.1 a
    (deeper.1, min found.2 deeper.2)
  | some number => if found.1.pending.contains a then (found.1, min found.2 number) else found

end Grouping

/-- Enters a node and searches what it leads to; with it the lowest number that was met.
If that is its own number, it forms a group with what is pending since it was entered. -/
def connect (next : α → List α) : Nat → Grouping α → α → Grouping α × Nat
  | 0, s, _ => (s, s.numbers.length)
  | fuel + 1, s, a =>
    let number := s.numbers.length
    let found := (next a).foldl (Grouping.meet (connect next fuel)) (s.enter a, number)
    if found.2 = number then (found.1.close a, number) else found

def components (next : α → List α) (bound : Nat) (nodes : List α) : List (List α) :=
  let search (s : Grouping α) (a : α) : Grouping α :=
    if (s.numbers.lookup a).isSome then s else (connect next bound s a).1
  (nodes.foldl search {}).groups

/-- Whether a group of nodes that reach each other has a cycle. -/
def isCyclic (next : α → List α) : List α → Bool
  | [] => false
  | a :: rest => !rest.isEmpty || (next a).contains a

/-- A walk from `a` on to `target`, without `a`, through nodes not seen before; with
it the nodes that were seen on the way. The first neighbour that leads there is
taken. -/
def walkTo (next : α → List α) (target : α) : Nat → List α → α → List α × Option (List α)
  | 0, seen, _ => (seen, none)
  | fuel + 1, seen, a =>
    (next a).foldl
      (fun found b => match found with
        | (seen, some walk) => (seen, some walk)
        | (seen, none) =>
          if b == target then (seen, some [b])
          else if seen.contains b then (seen, none)
          else match walkTo next target fuel (b :: seen) b with
            | (seen, some walk) => (seen, some (b :: walk))
            | (seen, none) => (seen, none))
      (seen, none)

def walkBack? (next : α → List α) (bound : Nat) (start : α) : Option (List α) :=
  (walkTo next start bound [] start).2.map (start :: ·)

/-- A walk from a node back to itself within its group. The node is the first of all nodes
that are in a group with a cycle. -/
def firstCycle? (next : α → List α) (bound : Nat) (nodes : List α) : Option (List α) :=
  let cyclic := (components next bound nodes).filter (isCyclic next)
  let first := nodes.findSome? fun a => (cyclic.find? (·.contains a)).map fun group => (a, group)
  first.bind fun found => walkBack? (fun a => (next a).filter found.2.contains) bound found.1

end Search
end ModelGraph
