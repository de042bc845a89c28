/-
# The places of a build

The passes of a build go over a document kind by kind. From one place of a build to another,
only elements of the categories that the passes in between touch are added or filled in. So
what holds of an element when a build leaves it holds when the build comes back to it.

Key definitions: `Document.RunsAt`, `Document.Progress`.
Key theorems: `Document.At.grows`, `Document.At.grows_build`, `Document.exists_trace`.
-/
import ModelGraph.Proofs.Build.Indices

namespace ModelGraph

open Model Build List

variable {d : Document} {o : Options} {m m' n : Model} {pass : String} {i : Nat} {s : Step}

namespace Document

/-- The passes of the domain that declare types and functions. -/
def typePasses (d : Document) : List Pass :=
  [.whole "sections" d.sections.length (d.sections.forM (·.declare)),
   .each "profiles" d.profiles (·.header) (·.declare),
   .each "classes.declare" d.classes (·.header) (·.declare),
   .each "enumerations" d.enumerations (·.header) (·.declare),
   .each "functions.declare" d.functions (·.header) (·.declare),
   .each "measures.declare" d.measures (·.header) (·.declare)]

def structurePasses (d : Document) : List Pass :=
  d.typePasses ++ [.each "classes.structure" d.classes (·.header) (·.structureStep)]

/-- The pass that checks supertypes, if it is asked for. -/
def cyclePasses (d : Document) (o : Options) : List Pass :=
  if o.cycles then
    [.whole "classes.generalizations" d.classes.length (checkSupertypeCycles d.classes)]
  else []

/-- The passes of the domain that complete the members of classes. -/
def memberPasses (d : Document) : List Pass :=
  [.each "measures.compile" d.measures (·.header) (·.compileStep),
   .each "associations.declare" d.associations (·.header) (·.declare),
   .each "classes.milestoning" d.classes (·.header) (·.milestoneStep),
   .each "associations.milestoning" d.associations (·.header) (·.milestoneStep)]

/-- The passes of the domain that compile bodies. -/
def bodyPasses (d : Document) : List Pass :=
  [.each "classes.bodies" d.classes (·.header) (·.compileStep),
   .each "associations.bodies" d.associations (·.header) (·.compileStep),
   .each "functions.bodies" d.functions (·.header) (·.compileStep)]

theorem passes_structure (d : Document) (o : Options) :
    d.passes o = d.structurePasses ++ (d.cyclePasses o ++ (d.memberPasses ++ (d.bodyPasses ++ d.mappingPasses o))) := by
  simp [passes, domainPasses, structurePasses, typePasses, cyclePasses, memberPasses, bodyPasses]

def classPaths (d : Document) : List String := d.classes.map (·.header.path)

/-! ### From place to place -/

section Places

variable {cs : List Category}

/-- **Between two places of a build only elements are touched that the passes between them touch.** -/
theorem At.grows {pass' : String} (h : d.At o pass i m) (h' : d.At o pass' 0 n)
    (hbefore : ∀ b, pass ∈ (passNames b).takeWhile (· != pass'))
    (hpass : i < (d.steps pass).length → touched pass ⊆ cs)
    (hcs : ∀ b, ∀ x ∈ (((passNames b).takeWhile (· != pass')).dropWhile (· != pass)).tail, touched x ⊆ cs) :
    Grows (within cs) m n := by
  obtain ⟨pre, p, post, k, hps, rfl, hruns, hk⟩ := h'
  cases hk
  exact h.grows_runs hps hruns (names_before hps ▸ hbefore _) hpass (names_before hps ▸ hcs _)

theorem At.grows_build (h : d.At o pass i n) (hm : (d.build o).result = .ok m)
    (hpass : i < (d.steps pass).length → touched pass ⊆ cs)
    (hcs : ∀ b, ∀ x ∈ ((passNames b).dropWhile (· != pass)).tail, touched x ⊆ cs) : Grows (within cs) n m := by
  have hmem : pass ∈ (d.passes o).map (·.name) := by
    obtain ⟨pre, p, post, -, hps, rfl, -⟩ := id h
    exact mem_map_of_mem (hps ▸ mem_append_right _ (.head _))
  exact h.grows_runs (append_nil _).symm ((runPasses_result _ _).1 hm) hmem hpass (passes_names d o ▸ hcs _)

theorem At.grows_any (h : d.At o pass i n) (hm : (d.build o).result = .ok m) : Grows (fun _ => True) n m := by
  have hall (x : String) : touched x ⊆ [.profile, .classType, .enumeration, .function, .measure, .unit, .association,
      .store, .mapping, .connection, .runtime] := by
    unfold touched
    split <;> decide
  exact (h.grows_build hm (fun _ => hall pass) fun _ x _ => hall x).any

theorem At.grows_steps (h : d.At o pass 0 m) (hi : i ≤ (d.steps pass).length) (h' : d.At o pass i n) :
    Grows (within (touched pass)) m n := by
  refine h.sweep (J := fun _ n => Grows (within (touched pass)) m n) (.refl m) (fun hs hn hg hrun => ?_) hi h'
  obtain ⟨done, after, hscript, hplay⟩ := hn.reached hs
  exact hg.trans (step_enters hscript (enrolled_of_play hscript hplay) () _ hrun).1

theorem At.tidy (h : d.At o pass i m) : m.Tidy := by
  obtain ⟨pre, p, post, k, hps, rfl, hreached⟩ := h
  exact (enrolled_of_play (script_place hps i) ((at_iff_play hps).1 ⟨k, hreached⟩)).tidy

theorem At.kinds {first : String} (h : d.At o pass i m) (hfirst : declaring pass = some first) (hs : s ∈ d.steps pass) :
    ∀ y ∈ s.keys, m.HasKind y.1.path y.2 := by
  obtain ⟨pre, p, post, k, hps, rfl, hreached⟩ := h
  have henrolled := enrolled_of_play (script_place hps i) ((at_iff_play hps).1 ⟨k, hreached⟩)
  obtain ⟨q, hq, rfl⟩ := exists_declaring hps rfl hfirst
  intro y hy
  have hmem : y ∈ (d.steps q.name).flatMap Step.keys := keys_eq hfirst ▸ mem_flatMap.2 ⟨s, hs, hy⟩
  obtain ⟨x, hx, hyx⟩ := mem_flatMap.1 hmem
  refine henrolled.kinds y (mem_flatMap.2 ⟨(q.name, x),
    mem_append_left _ (mem_flatMap.2 ⟨q, hq, mem_map_of_mem hx⟩), ?_⟩)
  rw [taken, declaring_first hfirst]
  exact hyx

theorem At.keys_nodup {first : String} (h : d.At o pass i m) (hfirst : declaring pass = some first) :
    (((d.steps pass).flatMap Step.keys).map fun k => k.1.path).Nodup := by
  obtain ⟨pre, p, post, k, hps, rfl, hreached⟩ := h
  have hplay := (at_iff_play hps).1 ⟨k, hreached⟩
  have htidy := (enrolled_of_play (script_place hps i) hplay).tidy.distinct
  have hpaths := congrArg (List.map fun y => y.1.2) (elements_of_play (script_place hps i) hplay)
  rw [map_map, map_map] at hpaths
  have hnodup : (((d.script pre ++ ((d.steps p.name).take i).map fun s => (p.name, s)).flatMap taken).map
      fun k => k.1.path).Nodup := hpaths ▸ htidy
  refine hnodup.sublist (List.Sublist.map _ ?_)
  rw [keys_eq hfirst]
  -- The steps of the declaring pass stand in a row among those that were made.
  obtain ⟨r, hr, rfl⟩ := exists_declaring hps rfl hfirst
  have htaken : (d.steps r.name).flatMap Step.keys = (d.script [r]).flatMap taken := by
    rw [script, flatMap_singleton, flatMap_map]
    refine flatMap_congr fun t _ => ?_
    rw [taken, declaring_first hfirst]
  obtain ⟨pre₁, pre₂, rfl⟩ := append_of_mem hr
  rw [htaken, append_cons, script_append, script_append, flatMap_append, flatMap_append,
    flatMap_append]
  exact ((sublist_append_right _ _).trans (sublist_append_left _ _)).trans (sublist_append_left _ _)

section Over

variable {α : Type} {decls : List α} {key : α → Header} {c : Option Category} {step : α → Build Unit} {first : String}
  {j : Nat} {x y : α}

theorem At.paths_nodup (h : d.At o pass i m) (hfirst : declaring pass = some first)
    (hsteps : d.steps pass = stepsOver decls key c step) : (decls.map fun x => (key x).path).Nodup := by
  have hnodup := h.keys_nodup hfirst
  rwa [hsteps, stepsOver, flatMap_map, ← map_eq_flatMap, map_map] at hnodup

theorem At.place_eq {k : Nat} (h : d.At o pass k m) (hfirst : declaring pass = some first)
    (hsteps : d.steps pass = stepsOver decls key c step) (hx : decls[i]? = some x) (hy : decls[j]? = some y)
    (hpath : (key y).path = (key x).path) : j = i ∧ y = x := by
  have hlt : j < (decls.map fun x => (key x).path).length := by
    rw [length_map]
    exact (List.getElem?_eq_some_iff.1 hy).1
  have hji : j = i := by
    refine (getElem?_inj hlt (h.paths_nodup hfirst hsteps)).1 ?_
    rw [getElem?_map, getElem?_map, hx, hy, Option.map_some, Option.map_some, hpath]
  subst hji
  exact ⟨rfl, Option.some.inj (hy.symm.trans hx)⟩

theorem At.each {name : String} {header : α → Header} (h : d.At o pass 0 m)
    (hsteps : d.steps pass = stepsOver decls key c step)
    (hrun : (Pass.each name (decls.take i) header step).run m = .ok ((), n)) : d.At o pass i n := by
  obtain ⟨pre, p, post, k, hps, rfl, hruns, hk⟩ := h
  cases hk
  refine ⟨pre, p, post, m, hps, rfl, hruns, ?_⟩
  rw [hsteps, stepsOver, ← map_take]
  exact (Pass.each_eq_ok _).1 hrun

/-- **One declaration among those that a pass goes over.** What the steps for others keep holds from
the start of the pass up to its step, and from its step on. -/
theorem At.around_own {R : Model → Model → Prop} (hrefl : ∀ m, R m m) (htrans : ∀ {m n k}, R m n → R n k → R m k)
    (h : d.At o pass 0 m) (h' : d.At o pass (d.steps pass).length m') (hfirst : declaring pass = some first)
    (hsteps : d.steps pass = stepsOver decls key c step) (hx : decls[i]? = some x)
    (hother : ∀ {j y n n'}, decls[j]? = some y → (key y).path ≠ (key x).path → d.At o pass j n →
      step y n = .ok ((), n') → R n n') :
    ∃ n n', d.At o pass i n ∧ step x n = .ok ((), n') ∧ R m n ∧ R n' m' := by
  refine At.around hrefl htrans h h' (hsteps ▸ getElem?_stepsOver hx) fun {j t n n'} hj ht hn hrun => ?_
  obtain ⟨y, hy, rfl⟩ := exists_of_stepsOver (hsteps ▸ ht)
  exact hother hy (fun hpath => hj (h.place_eq hfirst hsteps hx hy hpath).1) hn hrun

end Over

theorem at_start (d : Document) (o : Options) : d.At o "sections" 0 { options := o } :=
  ⟨[], _, _, _, rfl, rfl, rfl, rfl⟩

end Places

def RunsAt (d : Document) (o : Options) : List Pass → Model → Model → Prop
  | [], m, m' => m = m'
  | p :: ps, m, m' => d.At o p.name 0 m ∧ ∃ n, p.run m = .ok ((), n) ∧ d.RunsAt o ps n m'

theorem runsAt_of_runs : ∀ {ps pre post : List Pass} {m : Model}, d.passes o = pre ++ (ps ++ post) →
    Runs pre { options := o } m → Runs ps m m' → d.RunsAt o ps m m'
  | [], _, _, _, _, _, h => h
  | p :: ps, pre, post, m, hsplit, hpre, ⟨n, hrun, h⟩ => by
    refine ⟨⟨pre, p, ps ++ post, m, hsplit, rfl, hpre, rfl⟩, n, hrun, ?_⟩
    exact runsAt_of_runs (hsplit.trans (append_cons ..)) ((runs_append _ _).2 ⟨m, hpre, n, hrun, rfl⟩) h

/-! ### From mappings on -/

/-- The passes before the checks of whole mappings. -/
def uncheckedPasses (d : Document) (o : Options) : List Pass :=
  d.domainPasses o ++ (d.mappingPasses o).dropLast.dropLast

theorem passes_eq_unchecked (d : Document) (o : Options) : d.passes o = d.uncheckedPasses o ++
    [.whole "validators.mappings" d.mappings.length (checkMappings d.mappings),
     .whole "validators.extensions" o.extensions.length checkExtensions] := by
  rw [uncheckedPasses, append_assoc]
  rfl

/-- The models between the passes over mappings, connections and runtimes, in a build that has come
to the checks of mappings. These can add notes, which makes `m` of what is built. -/
structure Progress (d : Document) (o : Options) (m : Model) where
  {domain start declared structured mapped linked connected named served : Model}
  domainRun : Runs (d.domainPasses o) { options := o } domain
  domainAt : d.At o "extensions.declare" 0 domain
  storeRuns : Runs [.each "extensions.declare" d.extensions (·.header) (·.declare),
    .each "extensions.build" d.extensions (·.header) (·.buildStep)] domain start
  startAt : d.At o "mappings.declare" 0 start
  declareMappings : (Pass.each "mappings.declare" d.mappings (·.header) (·.declare)).run start =
    .ok ((), declared)
  declaredAt : d.At o "mappings.structure" 0 declared
  structureMappings : (Pass.each "mappings.structure" d.mappings (·.header) (·.structureStep)).run declared =
    .ok ((), structured)
  structuredAt : d.At o "mappings.classMappings" 0 structured
  mapSets : (Pass.each "mappings.classMappings" d.mappings (·.header) (·.setsStep)).run structured =
    .ok ((), mapped)
  mappedAt : d.At o "mappings.link" 0 mapped
  linkMappings : (Pass.each "mappings.link" d.mappings (·.header) (·.linkStep)).run mapped = .ok ((), linked)
  linkedAt : d.At o "connections.declare" 0 linked
  connectionRuns : Runs [.each "connections.declare" d.connections (·.header) (·.declare),
    .each "connections.build" d.connections (·.header) (·.buildStep)] linked connected
  connectedAt : d.At o "runtimes.declare" 0 connected
  declareRuntimes : (Pass.each "runtimes.declare" d.runtimes (·.header) (·.declare)).run connected =
    .ok ((), named)
  namedAt : d.At o "runtimes.build" 0 named
  buildRuntimes : (Pass.each "runtimes.build" d.runtimes (·.header) (·.buildStep)).run named =
    .ok ((), served)
  servedAt : d.At o "validators.mappings" 0 served
  noted : served.Noted m

/-- The models between the passes in a build that ends with `m`. -/
structure Trace (d : Document) (o : Options) (m : Model) extends d.Progress o m where
  checked : ∃ n, checkMappings d.mappings served = .ok ((), n) ∧ checkExtensions n = .ok ((), m)

theorem exists_progress (h : Runs (d.uncheckedPasses o) { options := o } m) (hm : m.Noted m') :
    ∃ t : d.Progress o m', t.served = m := by
  have servedAt : d.At o "validators.mappings" 0 m := ⟨_, _, _, m, passes_eq_unchecked d o, rfl, h, rfl⟩
  obtain ⟨domain, domainRun, h⟩ := (runs_append _ _).1 h
  have hsplit := (passes_eq_unchecked d o).trans (append_assoc ..)
  obtain ⟨domainAt, opened, hopen, -, start, hbuild, startAt, declared, declareMappings, declaredAt, structured,
    structureMappings, structuredAt, mapped, mapSets, mappedAt, linked, linkMappings, linkedAt, joined, hjoin, -,
    connected, hconnect, connectedAt, named, declareRuntimes, namedAt, served, buildRuntimes, rfl⟩ :=
    runsAt_of_runs hsplit domainRun h
  exact ⟨⟨domainRun, domainAt, ⟨opened, hopen, start, hbuild, rfl⟩, startAt, declareMappings, declaredAt,
    structureMappings, structuredAt, mapSets, mappedAt, linkMappings, linkedAt, ⟨joined, hjoin, connected, hconnect, rfl⟩,
    connectedAt, declareRuntimes, namedAt, buildRuntimes, servedAt, hm⟩, rfl⟩

theorem exists_trace (h : (d.build o).result = .ok m) : Nonempty (d.Trace o m) := by
  rw [build, runPasses_result, passes_eq_unchecked, runs_append] at h
  obtain ⟨served, hruns, n, hn, n', hn', rfl⟩ := h
  obtain ⟨t, rfl⟩ := exists_progress hruns
    (((checkMappings_made _).notes _ _ _ hn).trans (checkExtensions_notes _ _ _ hn'))
  exact ⟨⟨t, n, hn, hn'⟩⟩

end Document
end ModelGraph
