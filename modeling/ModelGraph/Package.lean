/-
# The package tree

Packages hold packages and elements under distinct names, in the order in which
the names first appeared. Adding under a name that is taken replaces what was
there, in its place.
-/
import ModelGraph.Failure
import ModelGraph.Text.Path

namespace ModelGraph

inductive Package (α : Type) where
  | folder (name : String) (children : List (Package α))
  | leaf (name : String) (value : α)
  deriving Repr, BEq, Inhabited

namespace Package

variable {α : Type}

def rootName : String := "Root"

def root : Package α := .folder rootName []

def name : Package α → String
  | folder n _ => n
  | leaf n _ => n

def children : Package α → List (Package α)
  | folder _ cs => cs
  | leaf _ _ => []

def isFolder : Package α → Bool
  | folder _ _ => true
  | leaf _ _ => false

def child? (p : Package α) (name : String) : Option (Package α) :=
  p.children.find? fun c => c.name = name

/-- Puts a node under its name: in place of a node of that name, or last. -/
def insert (node : Package α) : List (Package α) → List (Package α)
  | [] => [node]
  | c :: cs => if c.name = node.name then node :: cs else c :: insert node cs

def find? (p : Package α) : List String → Option (Package α)
  | [] => some p
  | n :: ns =>
    match p.child? n with
    | some c => c.find? ns
    | none => none

def reserved : String := "$implicit"

/-- Creates the packages that the given names lead to, unless they exist. `done`
are the names that led here. Where an element stands in the way, or a name is
reserved, what was created before it stays. -/
def ensureFrom (done : List String) : Package α → List String → Package α × Option Problem
  | p, [] => (p, none)
  | p, s :: rest =>
    match p.child? s with
    | none =>
      if s = reserved then (p, some (.reservedPackage s))
      else
        let (c, problem) := ensureFrom (done ++ [s]) (folder s []) rest
        (folder p.name (insert c p.children), problem)
    | some (leaf _ _) =>
      (p, some (.notAPackage s
        (if done.isEmpty then rootName else Path.ofNames done)))
    | some (folder n cs) =>
      let (c, problem) := ensureFrom (done ++ [s]) (folder n cs) rest
      (folder p.name (insert c p.children), problem)

/-- Creates the package that the given names lead to, unless it exists. -/
def ensure (p : Package α) (path : List String) : Package α × Option Problem :=
  ensureFrom [] p path

def place (node : Package α) : Package α → List String → Package α
  | p, [] => folder p.name (insert node p.children)
  | p, s :: rest =>
    match p.child? s with
    | some c => folder p.name (insert (place node c rest) p.children)
    | none => p

/-- Adds a node to the package that the given names lead to, creating it if need
be. -/
def add (p : Package α) (path : List String) (node : Package α) : Except Problem (Package α) :=
  match p.ensure path with
  | (p', none) => .ok (place node p' path)
  | (_, some problem) => .error problem

end Package
end ModelGraph
