/-
# Multiplicities

How many values a property, a parameter or an expression may have: a lower bound
and an upper one, or none. Bounds are 64-bit words, and adding them wraps around.
An upper bound of -1 means that there is none.

`subsumes` is the order by which a declared multiplicity admits a computed one,
`join` the least that admits two, `sum` that of a concatenation.
-/
import ModelGraph.Document.Basic

namespace ModelGraph

/-- A lower bound and, unless any number is allowed, an upper one. -/
structure Multiplicity where
  lower : Int
  upper : Option Int
  deriving Repr, BEq, DecidableEq, Inhabited

namespace Multiplicity

def make (lower upper : Int) : Multiplicity :=
  { lower, upper := if upper = -1 then none else some upper }

def ofBounds (b : Bounds) : Multiplicity :=
  match b.upper with
  | some upper => make b.lower upper
  | none => { lower := b.lower, upper := none }

def one : Multiplicity := { lower := 1, upper := some 1 }

def zeroOne : Multiplicity := { lower := 0, upper := some 1 }

def zeroMany : Multiplicity := { lower := 0, upper := none }

def oneMany : Multiplicity := { lower := 1, upper := none }

def zero : Multiplicity := { lower := 0, upper := some 0 }

def named : List (String × Multiplicity) :=
  [("one", one), ("zeroone", zeroOne), ("zeromany", zeroMany), ("onemany", oneMany), ("zero", zero)]

def ofName? (name : String) : Option Multiplicity :=
  (named.find? fun m => m.1 = name).map (·.2)

def name? (m : Multiplicity) : Option String :=
  (named.find? fun n => n.2 = m).map (·.1)

def isUnbounded (m : Multiplicity) : Bool := m.upper.isNone

def isOne (m : Multiplicity) : Bool := m = one

/-- Whether at most one value is allowed and none may be missing. -/
def isZeroOne (m : Multiplicity) : Bool := m = zeroOne

def isMany (m : Multiplicity) : Bool :=
  match m.upper with
  | none => true
  | some upper => 1 < upper

def within (n : Int) : Option Int → Bool
  | none => true
  | some upper => n ≤ upper

/-- Whether whatever `o` allows is allowed by `m`, judged by the bounds. -/
def subsumes (m o : Multiplicity) : Bool :=
  m.lower ≤ o.lower &&
    match m.upper, o.upper with
    | none, _ => true
    | some _, none => false
    | some u, some v => v ≤ u

def bothUpper (f : Int → Int → Int) : Option Int → Option Int → Int
  | some a, some b => f a b
  | _, _ => -1

def join (a b : Multiplicity) : Multiplicity :=
  make (min a.lower b.lower) (bothUpper max a.upper b.upper)

def wrap (n : Int) : Int := Int.bmod n 0x10000000000000000

def sum (a b : Multiplicity) : Multiplicity :=
  make (wrap (a.lower + b.lower)) (bothUpper (fun x y => wrap (x + y)) a.upper b.upper)

def render (m : Multiplicity) : String :=
  match m.upper with
  | none => if m.lower = 0 then "[*]" else "[" ++ toString m.lower ++ "..*]"
  | some upper =>
    if m.lower = upper then "[" ++ toString upper ++ "]"
    else "[" ++ toString m.lower ++ ".." ++ toString upper ++ "]"

/-- A multiplicity as part of the name of a function. Equal bounds are written once, also
where both are -1. -/
def signature (m : Multiplicity) : String :=
  match m.upper with
  | none =>
    if m.lower = 0 then "MANY"
    else if m.lower = -1 then "-1"
    else "$" ++ toString m.lower ++ "_MANY$"
  | some upper =>
    if m.lower = upper then toString upper
    else "$" ++ toString m.lower ++ "_" ++ toString upper ++ "$"

end Multiplicity
end ModelGraph
