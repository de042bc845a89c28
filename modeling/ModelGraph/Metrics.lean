/-
# Statistics of checks

Counters that grow with every build: how builds ended, the passes that were finished,
the elements of successful builds by kind, and the warnings. A counter under a label is
there once it was counted, be it by zero.
-/
import ModelGraph.Check

namespace ModelGraph

/-- Counters by label, the label of the oldest first. -/
abbrev Counters : Type := List (String × Nat)

def Counters.count (label : String) (n : Nat) : Counters → Counters
  | [] => [(label, n)]
  | (l, k) :: rest => if l = label then (l, k + n) :: rest else (l, k) :: count label n rest

structure Metrics where
  builds : Counters := []
  passes : Counters := []
  elements : Counters := []
  warnings : Nat := 0
  deriving Repr, BEq, DecidableEq, Inhabited

namespace Metrics

def record (m : Metrics) (o : Observation) : Metrics :=
  { builds := Counters.count o.ended.word 1 m.builds
    passes := o.passes.foldl (fun cs p => Counters.count p 1 cs) m.passes
    elements := o.elements.foldl (fun cs e => Counters.count e.1 e.2 cs) m.elements
    warnings := m.warnings + o.warnings }

def recordCheck (m : Metrics) (r : CheckResult) : Metrics :=
  match r.observed with
  | some o => m.record o
  | none => m

def family (name : String) : String := "purec_compiler_" ++ name

def series (m : Metrics) : List (String × Nat) :=
  let labelled (name : String) (cs : Counters) : List (String × Nat) :=
    cs.map fun c => (family name ++ "/" ++ c.1, c.2)
  labelled "build_duration_seconds" m.builds ++ labelled "pass_duration_seconds" m.passes ++
    labelled "elements_total" m.elements ++ [(family "warnings_total", m.warnings)]

end Metrics
end ModelGraph
