/-
# The steps of passes

A pass is a row of steps, one for each declaration that it goes over; a check of the
document as a whole is a single step. A step declares elements or looks up those that an
earlier pass has declared for the same declarations.

Key definitions: `Step`, `Document.steps`.
Key theorems: `Document.script_induct`, `Document.At.sweep`, `Document.At.around`.
-/
import ModelGraph.Proofs.Build.Growth

namespace ModelGraph

open Model Build List Option Nat

variable {first : String} {x : String × Step} {i : Nat} {done : List (String × Step)} {ps : List Pass} {n : Model}

/-- A step of a pass: the elements that it declares or looks up, with their categories, and
what it does. -/
structure Step where
  keys : List (Header × Option Category)
  run : Build Unit

def MeasureDecl.entries (d : MeasureDecl) : List (Header × Option Category) :=
  (d.header, some .measure) :: d.units.map fun u => (d.unitHeader u, some .unit)

def stepsOver {α : Type} (decls : List α) (key : α → Header) (c : Option Category)
    (step : α → Build Unit) : List Step :=
  decls.map fun x => { keys := [(key x, c)], run := step x }

section

variable {α : Type} {decls : List α} {key : α → Header} {c : Option Category} {step : α → Build Unit}

theorem getElem?_stepsOver {x : α} (hx : decls[i]? = some x) :
    (stepsOver decls key c step)[i]? = some { keys := [(key x, c)], run := step x } := by
  rw [stepsOver, getElem?_map, hx, map_some]

theorem exists_of_stepsOver {s : Step} (hs : (stepsOver decls key c step)[i]? = some s) :
    ∃ x, decls[i]? = some x ∧ s = { keys := [(key x, c)], run := step x } := by
  rw [stepsOver, getElem?_map] at hs
  obtain ⟨x, hx, rfl⟩ := map_eq_some_iff.1 hs
  exact ⟨x, hx, rfl⟩

end

/-- The pass that declares what a later pass looks up; none for a pass that declares. -/
def declaring : (pass : String) → Option String
  | "classes.structure" | "classes.generalizations" | "classes.milestoning" | "classes.bodies" =>
    some "classes.declare"
  | "measures.compile" => some "measures.declare"
  | "associations.milestoning" | "associations.bodies" => some "associations.declare"
  | "functions.bodies" => some "functions.declare"
  | "extensions.build" | "validators.extensions" => some "extensions.declare"
  | "mappings.structure" | "mappings.classMappings" | "mappings.link" | "validators.mappings" =>
    some "mappings.declare"
  | "connections.build" => some "connections.declare"
  | "runtimes.build" => some "runtimes.declare"
  | _ => none

def wholePasses : List String := ["classes.generalizations", "validators.mappings", "validators.extensions"]

namespace Document

def steps (d : Document) : (pass : String) → List Step
  | "sections" => stepsOver d.sections (·.header) none (·.declare)
  | "profiles" => stepsOver d.profiles (·.header) (some .profile) (·.declare)
  | "classes.declare" => stepsOver d.classes (·.header) (some .classType) (·.declare)
  | "enumerations" => stepsOver d.enumerations (·.header) (some .enumeration) (·.declare)
  | "functions.declare" => stepsOver d.functions (·.elementHeader) (some .function) (·.declare)
  | "measures.declare" => d.measures.map fun x => { keys := x.entries, run := x.declare }
  | "classes.structure" => stepsOver d.classes (·.header) (some .classType) (·.structureStep)
  | "classes.generalizations" =>
    [{ keys := d.classes.map fun x => (x.header, some .classType)
       run := checkSupertypeCycles d.classes }]
  | "measures.compile" => d.measures.map fun x => { keys := x.entries, run := x.compileStep }
  | "associations.declare" => stepsOver d.associations (·.header) (some .association) (·.declare)
  | "classes.milestoning" => stepsOver d.classes (·.header) (some .classType) (·.milestoneStep)
  | "associations.milestoning" =>
    stepsOver d.associations (·.header) (some .association) (·.milestoneStep)
  | "classes.bodies" => stepsOver d.classes (·.header) (some .classType) (·.compileStep)
  | "associations.bodies" => stepsOver d.associations (·.header) (some .association) (·.compileStep)
  | "functions.bodies" => stepsOver d.functions (·.elementHeader) (some .function) (·.compileStep)
  | "extensions.declare" => stepsOver d.extensions (·.header) (some .store) (·.declare)
  | "extensions.build" => stepsOver d.extensions (·.header) (some .store) (·.buildStep)
  | "mappings.declare" => stepsOver d.mappings (·.header) (some .mapping) (·.declare)
  | "mappings.structure" => stepsOver d.mappings (·.header) (some .mapping) (·.structureStep)
  | "mappings.classMappings" => stepsOver d.mappings (·.header) (some .mapping) (·.setsStep)
  | "mappings.link" => stepsOver d.mappings (·.header) (some .mapping) (·.linkStep)
  | "connections.declare" => stepsOver d.connections (·.header) (some .connection) (·.declare)
  | "connections.build" => stepsOver d.connections (·.header) (some .connection) (·.buildStep)
  | "runtimes.declare" => stepsOver d.runtimes (·.header) (some .runtime) (·.declare)
  | "runtimes.build" => stepsOver d.runtimes (·.header) (some .runtime) (·.buildStep)
  | "validators.mappings" =>
    [{ keys := d.mappings.map fun x => (x.header, some .mapping), run := checkMappings d.mappings }]
  | "validators.extensions" =>
    [{ keys := d.extensions.map fun x => (x.header, some .store), run := checkExtensions }]
  | _ => []

def At (d : Document) (o : Options) (pass : String) (i : Nat) (n : Model) : Prop :=
  ∃ pre p post m, d.passes o = pre ++ p :: post ∧ p.name = pass ∧ Runs pre { options := o } m ∧
    ((d.steps pass).take i).forM Step.run m = .ok ((), n)

/-- The steps of some passes one after another, each with the name of its pass. -/
def script (d : Document) (ps : List Pass) : List (String × Step) :=
  ps.flatMap fun p => (d.steps p.name).map fun s => (p.name, s)

end Document

theorem declaring_first {pass : String} (h : declaring pass = some first) : declaring first = none := by
  unfold declaring at h
  split at h <;> cases h <;> rfl

variable {α : Type} {m m' : Model} {d : Document} {o : Options} {p : Pass}

section

variable {step : α → Build Unit} (keys : α → List (Header × Option Category))

theorem forM_steps : ∀ decls : List α,
    (decls.map fun x => ({ keys := keys x, run := step x } : Step)).forM Step.run = decls.forM step
  | [] => rfl
  | x :: xs => congrArg (step x >>= fun _ => ·) (forM_steps xs)

theorem Pass.each_eq_ok {name : String} {header : α → Header} {decls : List α} :
    (Pass.each name decls header step).run m = .ok ((), m') ↔
      (decls.map fun x => ({ keys := keys x, run := step x } : Step)).forM Step.run m = .ok ((), m') := by
  rw [forM_steps]
  induction decls generalizing m with
  | nil => rfl
  | cons x xs ih =>
    show _ ↔ (step x >>= fun _ => xs.forM step) m = _
    rw [each_cons, bind_run]
    rcases step x m with e | ⟨⟨⟩, n⟩
    · simp
    · simpa using ih

end

theorem Step.single_eq_ok (keys : List (Header × Option Category)) (run : Build Unit) :
    run m = .ok ((), m') ↔ [({ keys, run } : Step)].forM Step.run m = .ok ((), m') := by
  show _ ↔ (run >>= fun _ => pure ()) m = _
  rw [bind_run]
  rcases run m with e | ⟨⟨⟩, n⟩
  · simp
  · rfl

namespace Document

/-- **A pass goes through as its steps do.** -/
theorem run_eq_ok (hp : p ∈ d.passes o) :
    p.run m = .ok ((), m') ↔ (d.steps p.name).forM Step.run m = .ok ((), m') := by
  simp only [passes, domainPasses, mappingPasses, mem_append, mem_cons, not_mem_nil,
    or_false] at hp
  rcases hp with ((hp | hp) | hp) | hp
  · rcases hp with rfl | rfl | rfl | rfl | rfl | rfl | rfl
    · exact iff_of_eq (congrArg (· m = _) (forM_steps _ d.sections).symm)
    all_goals exact Pass.each_eq_ok _
  · split at hp
    · rw [mem_singleton.1 hp]
      exact Step.single_eq_ok _ _
    · cases hp
  · rcases hp with rfl | rfl | rfl | rfl | rfl | rfl | rfl
    all_goals exact Pass.each_eq_ok _
  · rcases hp with rfl | rfl | rfl | rfl | rfl | rfl | rfl | rfl | rfl | rfl | hp
    all_goals try exact Pass.each_eq_ok _
    rcases hp with rfl | rfl
    all_goals exact Step.single_eq_ok _ _

end Document

/-! ### Steps in a row -/

def play (done : List (String × Step)) : Build Unit := done.forM fun x => x.2.run

theorem play_append {more : List (String × Step)} :
    play (done ++ more) m = .ok ((), m') ↔ ∃ n, play done m = .ok ((), n) ∧ play more n = .ok ((), m') := by
  have happend : play (done ++ more) = play done >>= fun _ => play more := forM_append
  rw [happend, bind_run]
  rcases play done m with e | ⟨⟨⟩, n⟩ <;> simp

theorem play_cons :
    play (x :: done) m = .ok ((), m') ↔ ∃ n, x.2.run m = .ok ((), n) ∧ play done n = .ok ((), m') := by
  have hcons : play (x :: done) = x.2.run >>= fun _ => play done := rfl
  rw [hcons, bind_run]
  rcases x.2.run m with e | ⟨⟨⟩, n⟩ <;> simp

theorem play_single : play [x] m = .ok ((), m') ↔ x.2.run m = .ok ((), m') :=
  Step.single_eq_ok x.2.keys x.2.run |>.symm

theorem play_steps (pass : String) (l : List Step) :
    play (l.map fun s => (pass, s)) = l.forM Step.run := forM_map

theorem exists_of_flatMap_eq {α β : Type} {f : α → List β} {x : β} {after : List β} :
    ∀ {l : List α} {done : List β}, l.flatMap f = done ++ x :: after →
      ∃ pre a post before rest, l = pre ++ a :: post ∧ f a = before ++ x :: rest ∧
        done = pre.flatMap f ++ before
  | [], done, h => by simp at h
  | a :: l, done, h => by
    rw [flatMap_cons, append_eq_append_iff] at h
    rcases h with ⟨mid, rfl, h⟩ | ⟨mid, ha, h⟩
    · obtain ⟨pre, b, post, before, rest, rfl, hb, rfl⟩ := exists_of_flatMap_eq h
      exact ⟨a :: pre, b, post, before, rest, rfl, hb, by rw [flatMap_cons, append_assoc]⟩
    · cases mid with
      | nil =>
        have hrest : l.flatMap f = [] ++ x :: after := h.symm
        obtain ⟨pre, b, post, before, rest, rfl, hb, hnil⟩ := exists_of_flatMap_eq hrest
        refine ⟨a :: pre, b, post, before, rest, rfl, hb, ?_⟩
        rw [flatMap_cons, append_assoc, ← hnil, ha, append_nil, append_nil]
      | cons y mid =>
        obtain ⟨rfl, -⟩ := List.cons.inj h
        exact ⟨[], a, l, done, mid, rfl, ha, rfl⟩

/-- The names of the passes, in order; the second part is there if supertypes are checked. -/
def passNames (cycles : Bool) : List String :=
  ["sections", "profiles", "classes.declare", "enumerations", "functions.declare", "measures.declare",
    "classes.structure"] ++
  (if cycles then ["classes.generalizations"] else []) ++
  ["measures.compile", "associations.declare", "classes.milestoning", "associations.milestoning",
    "classes.bodies", "associations.bodies", "functions.bodies", "extensions.declare", "extensions.build",
    "mappings.declare", "mappings.structure", "mappings.classMappings", "mappings.link",
    "connections.declare", "connections.build", "runtimes.declare", "runtimes.build",
    "validators.mappings", "validators.extensions"]

namespace Document

variable {pre post : List Pass} {done after : List (String × Step)} {pass : String} {s : Step}

theorem passes_names (d : Document) (o : Options) : (d.passes o).map (·.name) = passNames o.cycles := by
  unfold passes domainPasses
  cases o.cycles
  · rfl
  · rfl

theorem passNames_nodup : ∀ b, (passNames b).Nodup := by decide

theorem ne_before (hsplit : d.passes o = pre ++ p :: post) : ∀ x ∈ pre.map (·.name), (x != p.name) = true := by
  have hnodup := passNames_nodup o.cycles
  rw [← passes_names d o, hsplit, map_append, nodup_append] at hnodup
  exact fun x hx => bne_iff_ne.2 (hnodup.2.2 x hx _ (.head _))

theorem names_before (hsplit : d.passes o = pre ++ p :: post) :
    pre.map (·.name) = (passNames o.cycles).takeWhile (· != p.name) := by
  rw [← passes_names d o, hsplit, map_append, map_cons, takeWhile_append_of_pos (ne_before hsplit),
    takeWhile_cons_of_neg (by simp), append_nil]

theorem mem_before (x y : String) (hsplit : d.passes o = pre ++ p :: post) (hy : p.name = y)
    (hx : ∀ b, x ∈ (passNames b).takeWhile (· != y)) : x ∈ pre.map (·.name) := by
  rw [names_before hsplit, hy]
  exact hx o.cycles

theorem pass_unique {pre' post' : List Pass} {q : Pass} (h : d.passes o = pre ++ p :: post)
    (h' : d.passes o = pre' ++ q :: post') (hname : q.name = p.name) : pre' = pre ∧ q = p ∧ post' = post := by
  have hlength : (pre'.map (·.name)).length = (pre.map (·.name)).length := by
    rw [names_before h', names_before h, hname]
  rw [length_map, length_map] at hlength
  obtain ⟨hpre, hrest⟩ := append_inj (h'.symm.trans h) hlength
  exact ⟨hpre, List.cons.inj hrest⟩

theorem script_append (d : Document) (ps qs : List Pass) : d.script (ps ++ qs) = d.script ps ++ d.script qs :=
  flatMap_append

theorem mem_steps (h : x ∈ d.script ps) : x.2 ∈ d.steps x.1 := by
  obtain ⟨p, -, h⟩ := mem_flatMap.1 h
  obtain ⟨s, hs, rfl⟩ := mem_map.1 h
  exact hs

/-- **Passes run as their steps are made one after another.** -/
theorem runs_iff_play : ∀ {ps : List Pass} {m : Model}, ps ⊆ d.passes o →
    (Runs ps m m' ↔ play (d.script ps) m = .ok ((), m'))
  | [], m, _ => by
    constructor
    · rintro rfl
      rfl
    · rintro ⟨⟩
      rfl
  | p :: ps, m, hps => by
    have hcons : d.script (p :: ps) = (d.steps p.name).map (fun s => (p.name, s)) ++ d.script ps :=
      flatMap_cons
    rw [hcons, play_append, play_steps]
    exact exists_congr fun n => and_congr (run_eq_ok (hps (.head _)))
      (runs_iff_play (subset_of_cons_subset hps))

theorem exists_pass (h : d.script (d.passes o) = done ++ (pass, s) :: after) :
    ∃ pre p post before rest, d.passes o = pre ++ p :: post ∧ p.name = pass ∧
      d.steps pass = before ++ s :: rest ∧ done = d.script pre ++ before.map fun s => (pass, s) := by
  obtain ⟨pre, p, post, before, rest, hps, hsteps, rfl⟩ := exists_of_flatMap_eq h
  obtain ⟨before, tail, hsplit, rfl, htail⟩ := map_eq_append_iff.1 hsteps
  obtain ⟨s', rest, rfl, hs, rfl⟩ := map_eq_cons_iff.1 htail
  cases hs
  exact ⟨pre, p, post, before, rest, hps, rfl, hsplit, rfl⟩

theorem exists_declaring (hps : d.passes o = pre ++ p :: post) (hname : p.name = pass)
    (hfirst : declaring pass = some first) : ∃ q ∈ pre, q.name = first := by
  refine mem_map.1 (mem_before first pass hps hname ?_)
  unfold declaring at hfirst
  split at hfirst <;> cases hfirst <;> decide

theorem declared_before (h : d.script (d.passes o) = done ++ (pass, s) :: after)
    (hfirst : declaring pass = some first) : ∀ x ∈ d.steps first, (first, x) ∈ done := by
  obtain ⟨pre, p, post, before, rest, hps, hname, -, rfl⟩ := exists_pass h
  obtain ⟨q, hq, rfl⟩ := exists_declaring hps hname hfirst
  exact fun x hx => mem_append_left _ (mem_flatMap.2 ⟨q, hq, mem_map_of_mem hx⟩)

theorem keys_eq (hfirst : declaring pass = some first) :
    (d.steps pass).flatMap Step.keys = (d.steps first).flatMap Step.keys := by
  have hover {α : Type} (decls : List α) (keys : α → List (Header × Option Category)) (f g : α → Build Unit) :
      (decls.map fun x => ({ keys := keys x, run := f x } : Step)).flatMap Step.keys =
        (decls.map fun x => ({ keys := keys x, run := g x } : Step)).flatMap Step.keys := by
    rw [flatMap_map, flatMap_map]
  have hwhole {α : Type} (decls : List α) (key : α → Header) (c : Option Category) (f : α → Build Unit)
      (run : Build Unit) : [({ keys := decls.map fun x => (key x, c), run } : Step)].flatMap Step.keys =
        (stepsOver decls key c f).flatMap Step.keys := by
    rw [stepsOver, flatMap_singleton, flatMap_map, ← map_eq_flatMap]
  unfold declaring at hfirst
  split at hfirst <;> cases hfirst
  all_goals first | exact hover _ _ _ _ | exact hwhole _ _ _ _ _

/-- What a later step looks up is declared by a step of the declaring pass, by the one of the same
place if the later pass goes over declarations. -/
theorem exists_step {y : Header × Option Category} (hfirst : declaring pass = some first)
    (hs : (d.steps pass)[i]? = some s) (hy : y ∈ s.keys) :
    ∃ j s₀, (d.steps first)[j]? = some s₀ ∧ y ∈ s₀.keys ∧ (pass ∉ wholePasses → j = i) := by
  have hover {α : Type} {decls : List α} {keys : α → List (Header × Option Category)} {f g : α → Build Unit}
      (hs : (decls.map fun x => ({ keys := keys x, run := f x } : Step))[i]? = some s) :
      ∃ j s₀, (decls.map fun x => ({ keys := keys x, run := g x } : Step))[j]? = some s₀ ∧ y ∈ s₀.keys ∧
        (pass ∉ wholePasses → j = i) := by
    rw [getElem?_map] at hs
    obtain ⟨x, hx, rfl⟩ := map_eq_some_iff.1 hs
    exact ⟨i, { keys := keys x, run := g x }, by rw [getElem?_map, hx]; rfl, hy, fun _ => rfl⟩
  have hwhole (hpass : pass ∈ wholePasses) :
      ∃ j s₀, (d.steps first)[j]? = some s₀ ∧ y ∈ s₀.keys ∧ (pass ∉ wholePasses → j = i) := by
    have hmem : y ∈ (d.steps first).flatMap Step.keys :=
      keys_eq hfirst ▸ mem_flatMap.2 ⟨s, mem_of_getElem? hs, hy⟩
    obtain ⟨s₀, hs₀, hy₀⟩ := mem_flatMap.1 hmem
    obtain ⟨j, hj⟩ := getElem?_of_mem hs₀
    exact ⟨j, s₀, hj, hy₀, fun h => absurd hpass h⟩
  unfold declaring at hfirst
  split at hfirst <;> cases hfirst
  all_goals first | exact hover hs | exact hwhole (by decide)

theorem script_place (hps : ps = pre ++ p :: post) (i : Nat) :
    d.script ps = (d.script pre ++ ((d.steps p.name).take i).map fun s => (p.name, s)) ++
      (((d.steps p.name).drop i).map (fun s => (p.name, s)) ++ d.script post) := by
  have hpass : d.script [p] = ((d.steps p.name).take i).map (fun s => (p.name, s)) ++
      ((d.steps p.name).drop i).map fun s => (p.name, s) := by
    rw [← map_append, take_append_drop]
    exact flatMap_singleton _ _
  rw [hps, append_cons, script_append, script_append, hpass]
  simp only [append_assoc]

theorem script_split (hps : ps = pre ++ p :: post) (hs : (d.steps p.name)[i]? = some s) :
    d.script ps = (d.script pre ++ ((d.steps p.name).take i).map fun s => (p.name, s)) ++
      (p.name, s) :: (((d.steps p.name).drop (i + 1)).map (fun s => (p.name, s)) ++ d.script post) := by
  obtain ⟨hi, rfl⟩ := List.getElem?_eq_some_iff.1 hs
  rw [script_place hps i, drop_eq_getElem_cons hi, map_cons, cons_append]

theorem at_iff_play (hps : d.passes o = pre ++ p :: post) :
    (∃ m, Runs pre { options := o } m ∧ ((d.steps p.name).take i).forM Step.run m = .ok ((), n)) ↔
      play (d.script pre ++ ((d.steps p.name).take i).map fun s => (p.name, s)) { options := o } = .ok ((), n) := by
  have hsub : pre ⊆ d.passes o := hps ▸ subset_append_left _ _
  rw [play_append, play_steps]
  exact exists_congr fun m => and_congr_left fun _ => runs_iff_play hsub

theorem At.reached (h : d.At o pass i n) (hs : (d.steps pass)[i]? = some s) :
    ∃ done after, d.script (d.passes o) = done ++ (pass, s) :: after ∧
      play done { options := o } = .ok ((), n) := by
  obtain ⟨pre, p, post, m, hps, rfl, hreached⟩ := h
  exact ⟨_, _, script_split hps hs, (at_iff_play hps).1 ⟨m, hreached⟩⟩

theorem exists_at (h : d.script (d.passes o) = done ++ (pass, s) :: after)
    (hplay : play done { options := o } = .ok ((), m)) : ∃ i, (d.steps pass)[i]? = some s ∧ d.At o pass i m := by
  obtain ⟨pre, q, post, before, rest, hps, hname, hsteps, rfl⟩ := exists_pass h
  obtain ⟨n, hpre, hbefore⟩ := play_append.1 hplay
  have hsub : pre ⊆ d.passes o := hps ▸ subset_append_left _ _
  refine ⟨before.length, ?_, pre, q, post, n, hps, hname, (runs_iff_play hsub).2 hpre, ?_⟩
  · rw [hsteps, getElem?_append_right (Nat.le_refl _), Nat.sub_self]
    rfl
  · rw [hsteps, take_left]
    rwa [play_steps] at hbefore

/-- **What holds at first and is kept by each step holds wherever a build has come to.** -/
theorem script_induct {J : List (String × Step) → Model → Prop} (hstart : J [] { options := o })
    (hnext : ∀ {done after pass s i m m'}, d.script (d.passes o) = done ++ (pass, s) :: after →
      play done { options := o } = .ok ((), m) → (d.steps pass)[i]? = some s → d.At o pass i m → J done m →
      s.run m = .ok ((), m') → J (done ++ [(pass, s)]) m')
    (hscript : d.script (d.passes o) = done ++ after) (hplay : play done { options := o } = .ok ((), m)) :
    J done m := by
  have hall := ensures_forM_done (fun done m => play done { options := o } = .ok ((), m) ∧ J done m) done
    ⟨rfl, hstart⟩ ?_ () m hplay
  · exact hall.2
  rintro pre ⟨pass, s⟩ post rfl n ⟨hn, hj⟩ _ n' hrun
  have hsplit : d.script (d.passes o) = pre ++ (pass, s) :: (post ++ after) := by
    rw [hscript, append_assoc, cons_append]
  obtain ⟨i, hi, hat⟩ := exists_at hsplit hn
  exact ⟨play_append.2 ⟨n, hn, play_single.2 hrun⟩, hnext hsplit hn hi hat hj hrun⟩

theorem At.unique (h : d.At o pass i m) (h' : d.At o pass i m') : m = m' := by
  obtain ⟨pre, p, post, k, hps, rfl, hreached⟩ := h
  obtain ⟨pre', p', post', k', hps', hname, hreached'⟩ := h'
  obtain ⟨rfl, rfl, rfl⟩ := pass_unique hps hps' hname
  have hplay := (at_iff_play hps).1 ⟨k, hreached⟩
  cases hplay.symm.trans ((at_iff_play hps).1 ⟨k', hreached'⟩)
  rfl

theorem At.pred (h : d.At o pass (i + 1) m') (hs : (d.steps pass)[i]? = some s) :
    ∃ m, d.At o pass i m ∧ s.run m = .ok ((), m') := by
  obtain ⟨pre, p, post, k, hps, rfl, hruns, hm'⟩ := h
  obtain ⟨hi, rfl⟩ := List.getElem?_eq_some_iff.1 hs
  rw [take_succ_eq_append_getElem hi, ← play_steps p.name, map_append, play_append] at hm'
  obtain ⟨m, hm, hlast⟩ := hm'
  exact ⟨m, ⟨pre, p, post, k, hps, rfl, hruns, (congrFun (play_steps _ _) k).symm.trans hm⟩, play_single.1 hlast⟩

theorem at_of_build (h : (d.build o).result = .ok m) (pass : String) (hpass : ∀ b, pass ∈ passNames b) (i : Nat) :
    ∃ n, d.At o pass i n := by
  have hmem : pass ∈ (d.passes o).map (·.name) := passes_names d o ▸ hpass o.cycles
  obtain ⟨p, hp, rfl⟩ := mem_map.1 hmem
  obtain ⟨pre, post, hps⟩ := append_of_mem hp
  have hruns : Runs (pre ++ p :: post) { options := o } m := hps ▸ (runPasses_result _ _).1 h
  obtain ⟨k, hk, k', hrun, -⟩ := (runs_append _ _).1 hruns
  rw [run_eq_ok hp, ← take_append_drop i (d.steps p.name), ← play_steps p.name, map_append, play_append] at hrun
  obtain ⟨n, hn, -⟩ := hrun
  exact ⟨n, pre, p, post, k, hps, rfl, hk, (congrFun (play_steps _ _) k).symm.trans hn⟩

theorem At.last {next : String} (h : d.At o next 0 m)
    (hnext : ∀ b, ((passNames b).takeWhile (· != next)).getLast? = some pass) :
    d.At o pass (d.steps pass).length m := by
  obtain ⟨pre, p, post, k, hps, rfl, hruns, hk⟩ := h
  cases hk
  obtain ⟨names, hnames⟩ := getLast?_eq_some_iff.1 (hnext o.cycles)
  rw [← names_before hps] at hnames
  obtain ⟨pre₀, last, rfl, -, hlast⟩ := map_eq_append_iff.1 hnames
  obtain ⟨q, rfl, rfl⟩ := map_eq_singleton_iff.1 hlast
  rw [append_assoc] at hps
  obtain ⟨k, hk, m', hrun, rfl⟩ := (runs_append _ _).1 hruns
  refine ⟨pre₀, q, p :: post, k, hps, rfl, hk, ?_⟩
  rw [take_length]
  exact (run_eq_ok (hps ▸ mem_append_right _ (.head _))).1 hrun

/-- **What the steps of a pass keep, as one after another is made.** -/
theorem At.sweep {J : Nat → Model → Prop} (h₀ : d.At o pass 0 m) (hm : J 0 m)
    (hstep : ∀ {i s n n'}, (d.steps pass)[i]? = some s → d.At o pass i n → J i n → s.run n = .ok ((), n') → J (i + 1) n')
    (hi : i ≤ (d.steps pass).length) (h : d.At o pass i m') : J i m' := by
  induction i generalizing m' with
  | zero => exact h.unique h₀ ▸ hm
  | succ i ih =>
    have hs := getElem?_eq_getElem hi
    obtain ⟨n, hn, hrun⟩ := h.pred hs
    exact hstep hs hn (ih (le_of_succ_le hi) hn) hrun

/-- **One step of a pass among others.** What all other steps keep holds from the start of the pass
up to the step, and from the step on. -/
theorem At.around {R : Model → Model → Prop} (hrefl : ∀ m, R m m) (htrans : ∀ {m n k}, R m n → R n k → R m k)
    (h : d.At o pass 0 m) (h' : d.At o pass (d.steps pass).length m') (hs : (d.steps pass)[i]? = some s)
    (hother : ∀ {j t n n'}, j ≠ i → (d.steps pass)[j]? = some t → d.At o pass j n → t.run n = .ok ((), n') → R n n') :
    ∃ n n', d.At o pass i n ∧ s.run n = .ok ((), n') ∧ R m n ∧ R n' m' := by
  refine (h.sweep (J := fun j n => (j ≤ i → R m n) ∧ (i < j → ∃ k k', d.At o pass i k ∧ s.run k = .ok ((), k') ∧
    R m k ∧ R k' n)) ⟨fun _ => hrefl m, nofun⟩ ?_ (le_refl _) h').2 (List.getElem?_eq_some_iff.1 hs).1
  rintro j t n n' ht hn ⟨hbefore, hafter⟩ hrun
  rcases lt_trichotomy j i with hj | rfl | hj
  · exact ⟨fun _ => htrans (hbefore hj.le) (hother hj.ne ht hn hrun), fun h => absurd h (not_lt.2 hj)⟩
  · cases ht.symm.trans hs
    exact ⟨fun h => absurd h (not_succ_le_self j), fun _ => ⟨n, n', hn, hrun, hbefore (le_refl j), hrefl n'⟩⟩
  · obtain ⟨k, k', hk, hrun', hmk, hkn⟩ := hafter hj
    exact ⟨fun h => absurd h (by omega), fun _ => ⟨k, k', hk, hrun', hmk, htrans hkn (hother hj.ne' ht hn hrun)⟩⟩

end Document
end ModelGraph
