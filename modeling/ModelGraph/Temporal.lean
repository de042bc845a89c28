/-
# Temporal dimensions

A class may be dated in business time, in processing time or in both. Navigating
to it takes one date for each of its dimensions, the processing date first.
-/

namespace ModelGraph

inductive Temporal where
  | none | business | processing | both
  deriving Repr, BEq, DecidableEq, Inhabited

namespace Temporal

def stereotype : Temporal → String
  | none => "none"
  | business => "businesstemporal"
  | processing => "processingtemporal"
  | both => "bitemporal"

def ofStereotype? (s : String) : Option Temporal :=
  [business, processing, both].find? fun t => t.stereotype = s

inductive Dimension where
  | processing | business
  deriving Repr, BEq, DecidableEq

def Dimension.dateName : Dimension → String
  | processing => "processingDate"
  | business => "businessDate"

def dimensions : Temporal → List Dimension
  | none => []
  | business => [.business]
  | processing => [.processing]
  | both => [.processing, .business]

def dateNames (t : Temporal) : List String := t.dimensions.map (·.dateName)

def isSingle (t : Temporal) : Bool := t = business || t = processing

def listNames (t : Temporal) : String := "[" ++ ", ".intercalate t.dateNames ++ "]"

def profile : String := "meta::pure::profiles::temporal"

end Temporal

structure Dates (α : Type) where
  processing : Option α
  business : Option α
  deriving Repr, BEq, Inhabited

namespace Dates

def get (d : Dates α) : Temporal.Dimension → Option α
  | .processing => d.processing
  | .business => d.business

def set (d : Dates α) (value : Option α) : Temporal.Dimension → Dates α
  | .processing => { d with processing := value }
  | .business => { d with business := value }

def empty : Dates α := ⟨none, none⟩

def covers (d : Dates α) (t : Temporal) : Bool := t.dimensions.all fun x => (d.get x).isSome

def inOrder (d : Dates α) (t : Temporal) : List (Option α) := t.dimensions.map d.get

end Dates
end ModelGraph
