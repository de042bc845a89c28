/-
# What passes take in

A step that declares takes in one element for its declaration, and a measure with its
units; every other step leaves the names and paths of a model as they are. Each step of a
pass is listed here once with the headers it registers (`Document.step_made`).

Key definitions: `taken`, `Document.entries`.
Key theorems: `Document.step_enrols`, `Document.enrolls_of_play`, `Document.enrolls_of_runs`.
-/
import ModelGraph.Proofs.Build.Steps

namespace ModelGraph

open Model Build List

variable {m m' : Model} {α β : Type} {d : Document} {pass : String} {s : Step} {o : Options}

/-! ### Steps and passes -/

/-- What a step of a pass takes in: the elements that it declares. -/
def taken (x : String × Step) : List (Header × Option Category) :=
  match declaring x.1 with
  | none => x.2.keys
  | some _ => []

namespace Document

/-- The elements that the pass of a name takes in, with their categories. -/
def entries (d : Document) : (pass : String) → List (Header × Option Category)
  | "sections" => d.sections.map fun x => (x.header, none)
  | "profiles" => d.profiles.map fun x => (x.header, some .profile)
  | "classes.declare" => d.classes.map fun x => (x.header, some .classType)
  | "enumerations" => d.enumerations.map fun x => (x.header, some .enumeration)
  | "functions.declare" => d.functions.map fun x => (x.elementHeader, some .function)
  | "measures.declare" => d.measures.flatMap (·.entries)
  | "associations.declare" => d.associations.map fun x => (x.header, some .association)
  | "extensions.declare" => d.extensions.map fun x => (x.header, some .store)
  | "mappings.declare" => d.mappings.map fun x => (x.header, some .mapping)
  | "connections.declare" => d.connections.map fun x => (x.header, some .connection)
  | "runtimes.declare" => d.runtimes.map fun x => (x.header, some .runtime)
  | _ => []

/-- The elements that some passes take in, in order. -/
def entriesOf (d : Document) (ps : List Pass) : List (Header × Option Category) :=
  ps.flatMap fun p => d.entries p.name

theorem exists_extension {name : String} {h : Header}
    (hmem : (h, some Category.store) ∈ d.entries name) : ∃ x ∈ d.extensions, x.header = h := by
  unfold entries at hmem
  split at hmem
  all_goals
    simp [MeasureDecl.entries] at hmem
  exact hmem

def stagePasses : List String :=
  ["classes.structure", "classes.milestoning", "associations.milestoning", "classes.bodies", "associations.bodies",
   "functions.bodies"]

/-- **What the steps of passes are made of.** All of them read options only where these let in what is
refused by default, but for the checks of extensions. -/
theorem step_made {moves : Prop} (hs : s ∈ d.steps pass)
    (hmoves : pass ∈ stagePasses → moves) (hpass : pass ≠ "validators.extensions") :
    Made moves Stays (Under o) ((taken (pass, s)).map (·.1)) s.run := by
  unfold steps at hs
  split at hs
  all_goals try obtain ⟨x, -, rfl⟩ := mem_map.1 hs
  · exact x.declare_made
  · exact .register _ _ _
  · exact x.declare_made
  · exact x.declare_made
  · exact x.declare_made
  · have hheaders : x.entries.map (·.1) = x.header :: (x.canonical.toList ++ x.nonCanonical).map x.unitHeader := by
      rw [MeasureDecl.entries, map_cons, map_map]
      rfl
    exact hheaders ▸ x.declare_made
  · exact x.structureStep_made (hmoves (by decide))
  · rw [mem_singleton.1 hs]
    exact checkSupertypeCycles_made _
  · exact x.compileStep_made
  · exact x.declare_made
  · exact milestoneClass_made (hmoves (by decide)) x.ref
  · exact x.milestoneStep_made (hmoves (by decide))
  · exact x.compileStep_made (hmoves (by decide))
  · exact x.compileStep_made (hmoves (by decide))
  · exact x.compileStep_made (hmoves (by decide))
  · exact x.declare_made
  · exact x.buildStep_made
  · exact .register _ _ _
  · exact x.structureStep_made
  · exact x.setsStep_made
  · exact x.linkStep_made
  · exact .register _ _ _
  · exact x.buildStep_made
  · exact .register _ _ _
  · exact x.buildStep_made
  · rw [mem_singleton.1 hs]
    exact checkMappings_made _
  · exact absurd rfl hpass
  · cases hs

/-- **Each step takes in the elements that it declares.** -/
theorem step_enrols (hs : s ∈ d.steps pass) : s.run.Enrols ((taken (pass, s)).map (·.1)) := by
  by_cases hpass : pass = "validators.extensions"
  · subst hpass
    rw [mem_singleton.1 hs]
    exact fun m => (checkExtensions_notes m).mono fun _ _ h => .of_stays h.stays
  · exact (step_made hs (fun _ => trivial) hpass).enrols

/-- **Steps one after another take in their elements, in order.** -/
theorem enrolls_of_play : ∀ {done : List (String × Step)} {m m' : Model},
    (∀ x ∈ done, x.2 ∈ d.steps x.1) → play done m = .ok ((), m') →
      m.Enrolls ((done.flatMap taken).map (·.1)) m'
  | [], _, _, _, h => by
    cases h
    exact .refl
  | x :: done, m, m', hdone, h => by
    obtain ⟨n, hx, h⟩ := play_cons.1 h
    obtain ⟨hs, hdone⟩ := forall_mem_cons.1 hdone
    rw [flatMap_cons, map_append]
    exact (step_enrols hs m () n hx).trans (enrolls_of_play hdone h)

theorem flatMap_taken (d : Document) (pass : String) :
    ((d.steps pass).map fun s => (pass, s)).flatMap taken = d.entries pass := by
  have hover {α : Type} (decls : List α) (key : α → Header) (c : Option Category) (step : α → Build Unit) :
      (stepsOver decls key c step).flatMap Step.keys = decls.map fun x => (key x, c) := by
    rw [stepsOver, flatMap_map, ← map_eq_flatMap]
  rw [flatMap_map]
  unfold steps entries
  split
  all_goals first | exact hover _ _ _ _ | simp [taken, declaring, flatMap_map]

theorem script_taken (d : Document) (ps : List Pass) : (d.script ps).flatMap taken = d.entriesOf ps := by
  unfold script
  rw [flatMap_assoc]
  exact flatMap_congr fun p _ => d.flatMap_taken p.name

/-- **Passes one after another take in their elements, in order.** -/
theorem enrolls_of_runs {ps : List Pass} {m m' : Model} (hps : ps ⊆ d.passes o)
    (h : Runs ps m m') : m.Enrolls ((d.entriesOf ps).map (·.1)) m' := by
  rw [← script_taken]
  exact enrolls_of_play (fun _ => mem_steps) ((runs_iff_play hps).1 h)

end Document
end ModelGraph
