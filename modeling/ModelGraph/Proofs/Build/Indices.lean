/-
# The indices of a model in a build

At the end of every pass the elements of a model are those that the passes so far have
declared, under the paths of their declarations and in their categories. Their paths are
distinct and none is one of the library, so the indices of the model fit together.

Key definitions: `Model.HasKind`, `Enrolled`.
Key theorems: `Document.enrolled_of_play`, `Document.enrolled_of_runs`, `Document.indices_coherent`.
-/
import ModelGraph.Proofs.Build.Enrolment
import ModelGraph.Proofs.Domain.Checked
import ModelGraph.Proofs.Model.Index

namespace ModelGraph

open Model Build List

/-! ### What steps declare -/

/-- A declared element of a category, or of none. -/
def Model.HasKind (m : Model) (p : String) (c : Option Category) : Prop :=
  ∃ e, m.declared? p = some e ∧ e.category? = c

variable {m m' n : Model} {K : Option Category → Prop} {x : Build Unit} {h : Header} {cs : List Category}

theorem Model.HasKind.grows {p : String} {c : Option Category} (h : m.HasKind p c) (hg : Grows K m m') :
    m'.HasKind p c := by
  obtain ⟨e, he, hc⟩ := h
  obtain ⟨e', he', hgrown, -⟩ := hg.kept he
  exact ⟨e', he', hgrown.category.trans hc⟩

theorem Build.Enrols.kind (hx : x.Enrols [h]) (hg : x.Ensures m fun _ m' => Grows K m m') :
    x.Ensures m fun _ m' => Grows K m m' ∧ ∃ e, m'.declared? h.path = some e ∧ K e.category? := by
  refine (hg.and (hx m)).mono ?_
  rintro _ m' ⟨hgrows, henrols⟩
  have hnew := henrols.declared?_eq_none h (mem_singleton_self h)
  obtain ⟨e, he⟩ := Option.isSome_iff_exists.1 (henrols.declared?_isSome h (mem_singleton_self h))
  exact ⟨hgrows, e, he, (hgrows.fresh hnew he).2.1⟩

theorem Build.Enrols.kind_among {c : Category} (hx : x.Enrols [h])
    (hg : x.Ensures m fun _ m' => Grows (among [c]) m m') :
    x.Ensures m fun _ m' => Grows (among [c]) m m' ∧ m'.HasKind h.path (some c) := by
  refine (hx.kind hg).mono ?_
  rintro _ m' ⟨hgrows, e, he, y, hy, hc⟩
  rw [mem_singleton.1 hy] at hc
  exact ⟨hgrows, e, he, hc⟩

theorem Element.category?_of_measure? {e : Element} {q : String} (h : e.measure? = some q) :
    e.category? = some .unit := by
  unfold measure? at h
  unfold category?
  split at h
  · rename_i hcontent
    rw [hcontent]
  · cases h

theorem MeasureDecl.declare_kinds (d : MeasureDecl) :
    d.declare.Ensures m fun _ m' => Grows (among [.measure, .unit]) m m' ∧
      (∀ u ∈ d.units, m'.HasUnit (d.unitHeader u).path d.header.path) ∧
      ∀ y ∈ d.entries, m'.HasKind y.1.path y.2 := by
  have hmeasure : d.declare.Ensures m fun _ m' => ∀ e, m'.declared? d.header.path = some e →
      e.category? = some .measure := by
    unfold declare
    simp only [ensures_bind, ensures_modify]
    intro _ m₁ _ canonical m₂ _ nonCanonical m₃ _ e he
    rw [declared?_setContent, if_pos rfl] at he
    obtain ⟨x, -, rfl⟩ := Option.map_eq_some_iff.1 he
    rfl
  refine ((d.declare_grows.and hmeasure).and (d.declare_made.enrols m)).mono ?_
  rintro _ m' ⟨⟨⟨hgrows, hunits⟩, hmeasure⟩, henrols⟩
  refine ⟨hgrows, hunits, forall_mem_cons.2 ⟨?_, fun y hy => ?_⟩⟩
  · obtain ⟨e, he⟩ := Option.isSome_iff_exists.1 (henrols.declared?_isSome d.header (.head _))
    exact ⟨e, he, hmeasure e he⟩
  · obtain ⟨u, hu, rfl⟩ := mem_map.1 hy
    obtain ⟨e, he, hunit⟩ := hunits u hu
    exact ⟨e, he, Element.category?_of_measure? hunit⟩

/-- What holds of a model once some steps are made: the elements that they declare are there,
each of its category, and units of their measures. -/
structure Enrolled (done : List (String × Step)) (m : Model) : Prop where
  tidy : m.Tidy
  kinds : ∀ y ∈ done.flatMap taken, m.HasKind y.1.path y.2
  units : ∀ x : MeasureDecl, ("measures.declare", { keys := x.entries, run := x.declare }) ∈ done →
    ∀ u ∈ x.units, m.HasUnit (x.unitHeader u).path x.header.path

variable {d : Document} {o : Options} {done after : List (String × Step)} {pass : String} {s : Step}

open Document

theorem Enrolled.keys {first : String} (h : Enrolled done m)
    (hscript : d.script (d.passes o) = done ++ (pass, s) :: after) (hfirst : declaring pass = some first) :
    ∀ y ∈ s.keys, m.HasKind y.1.path y.2 := by
  intro y hy
  have hs : s ∈ d.steps pass := mem_steps (hscript ▸ mem_append_right _ (.head _))
  have hmem : y ∈ (d.steps first).flatMap Step.keys := keys_eq hfirst ▸ mem_flatMap.2 ⟨s, hs, hy⟩
  obtain ⟨x, hx, hyx⟩ := mem_flatMap.1 hmem
  refine h.kinds y (mem_flatMap.2 ⟨(first, x), declared_before hscript hfirst x hx, ?_⟩)
  rw [taken, declaring_first hfirst]
  exact hyx

/-- The categories of the elements that a pass adds or fills in. -/
def touched : (pass : String) → List Category
  | "profiles" => [.profile]
  | "classes.declare" | "classes.structure" | "classes.milestoning" | "classes.bodies" => [.classType]
  | "enumerations" => [.enumeration]
  | "functions.declare" | "functions.bodies" => [.function]
  | "measures.declare" => [.measure, .unit]
  | "measures.compile" => [.unit]
  | "associations.declare" | "associations.bodies" => [.classType, .association]
  | "associations.milestoning" => [.association]
  | "extensions.declare" | "extensions.build" => [.store]
  | "mappings.declare" | "mappings.structure" | "mappings.classMappings" | "mappings.link" => [.mapping]
  | "connections.declare" | "connections.build" => [.connection]
  | "runtimes.declare" | "runtimes.build" => [.runtime]
  | _ => []

/-- **Each step leaves elements in their categories and declares its own.** What a step looks up
has been declared before. -/
theorem Document.step_enters (hscript : d.script (d.passes o) = done ++ (pass, s) :: after) (h : Enrolled done m) :
    s.run.Ensures m fun _ m' => Grows (within (touched pass)) m m' ∧ ∀ y ∈ taken (pass, s), m'.HasKind y.1.path y.2 := by
  have hs : s ∈ d.steps pass := mem_steps (hscript ▸ mem_append_right _ (.head _))
  -- A step that declares one element,
  have hone {x : Build Unit} {key : Header} {c : Option Category}
      (hx : x.Ensures m fun _ m' => Grows (among (touched pass)) m m' ∧ m'.HasKind key.path c) :
      x.Ensures m fun _ m' => Grows (within (touched pass)) m m' ∧ ∀ y ∈ [(key, c)], m'.HasKind y.1.path y.2 :=
    hx.mono fun _ m' h => ⟨h.1.to_within, forall_mem_singleton.2 h.2⟩
  -- one that declares none,
  have hnone {x : Build Unit} (hx : x.Ensures m fun _ m' => Grows (among (touched pass)) m m') :
      x.Ensures m fun _ m' => Grows (within (touched pass)) m m' ∧
        ∀ y ∈ ([] : List (Header × Option Category)), m'.HasKind y.1.path y.2 :=
    hx.mono fun _ m' h => ⟨h.to_within, forall_mem_nil _⟩
  -- and one that adds notes.
  have hnotes {x : Build Unit} (hx : x.Ensures m fun _ m' => m.Noted m') :
      x.Ensures m fun _ m' => Grows (within (touched pass)) m m' ∧
        ∀ y ∈ ([] : List (Header × Option Category)), m'.HasKind y.1.path y.2 :=
    hx.mono fun _ m' h => ⟨h.grows, forall_mem_nil _⟩
  have hkind {first : String} (hfirst : declaring pass = some first) := h.keys hscript hfirst
  unfold steps at hs
  split at hs
  all_goals try obtain ⟨x, hx, rfl⟩ := mem_map.1 hs
  · refine (x.declare_made.enrols.kind x.declare_grows).mono fun _ m' h =>
      ⟨h.1.mono fun _ hc _ hx => (nomatch hc.symm.trans hx), forall_mem_singleton.2 h.2⟩
  · exact hone ((Made.register x.header _ _).enrols.kind_among x.declare_grows)
  · exact hone x.declare_grows
  · exact hone (x.declare_made.enrols.kind_among x.declare_grows)
  · exact hone x.declare_grows
  · exact x.declare_kinds.mono fun _ m' h => ⟨h.1.to_within, h.2.2⟩
  · exact hnone (x.structureStep_advances h.tidy (hkind rfl _ (.head _))).grows
  · rw [mem_singleton.1 hs]
    exact hnotes ((checkSupertypeCycles_made _).notes m)
  · refine hnone (Ensures.grows (x.compileStep_advances fun u hu => h.units x ?_ u hu))
    exact declared_before hscript rfl _ (mem_map_of_mem hx)
  · exact hone x.declare_grows
  · exact hnone (Ensures.grows (milestoneClass_advances (hkind rfl _ (.head _))))
  · exact hnone (x.milestoneStep_advances (hkind rfl _ (.head _))).grows
  · exact hnone (x.compileStep_advances (hkind rfl _ (.head _))).grows
  · exact hnone (x.compileStep_advances (hkind rfl _ (.head _))).grows
  · exact hnone x.compileStep_advances.grows
  · exact hone x.declare_grows
  · exact hnone (x.buildStep_grows (hkind rfl _ (.head _)))
  · exact hone x.declare_grows
  · exact hnone x.structureStep_grows
  · exact hnone x.setsStep_grows
  · exact hnone x.linkStep_grows
  · exact hone x.declare_grows
  · exact hnone (x.buildStep_grows (hkind rfl _ (.head _)))
  · exact hone x.declare_grows
  · exact hnone (x.buildStep_grows (hkind rfl _ (.head _)))
  · rw [mem_singleton.1 hs]
    exact hnotes ((checkMappings_made _).notes m)
  · rw [mem_singleton.1 hs]
    exact hnotes (checkExtensions_notes m)
  · cases hs

theorem Enrolled.next (h : Enrolled done m) (hscript : d.script (d.passes o) = done ++ (pass, s) :: after)
    (hrun : s.run m = .ok ((), m')) : Enrolled (done ++ [(pass, s)]) m' := by
  obtain ⟨hg, hkinds⟩ := step_enters hscript h () m' hrun
  refine ⟨hg.tidy h.tidy, ?_, fun x hx u hu => ?_⟩
  · rw [flatMap_append, flatMap_singleton, forall_mem_append]
    exact ⟨fun y hy => (h.kinds y hy).grows hg, hkinds⟩
  · rcases mem_append.1 hx with hx | hx
    · exact hg.hasUnit (h.units x hx u hu)
    · cases mem_singleton.1 hx
      exact (x.declare_kinds () m' hrun).2.1 u hu

namespace Document

variable {pre post : List Pass}

theorem tidy_empty (o : Options) : ({ options := o } : Model).Tidy where
  distinct := nodup_nil
  apart h := by cases h
  bare h := by cases h
  rooted h := by cases h

/-- **Once steps are made, the elements that they declare are there, each of its category.** -/
theorem enrolled_of_play (hscript : d.script (d.passes o) = done ++ after)
    (h : play done { options := o } = .ok ((), m)) : Enrolled done m := by
  have hempty : Enrolled [] { options := o } :=
    ⟨tidy_empty o, forall_mem_nil _, fun _ hx => absurd hx not_mem_nil⟩
  exact script_induct hempty (fun hsplit _ _ _ hn hrun => hn.next hsplit hrun) hscript h

theorem grows_of_play : ∀ {mid done : List (String × Step)} {m : Model},
    d.script (d.passes o) = done ++ (mid ++ after) → play done { options := o } = .ok ((), m) →
      play mid m = .ok ((), n) → (∀ x ∈ mid, touched x.1 ⊆ cs) → Grows (within cs) m n
  | [], _, _, _, _, h, _ => by
    cases h
    exact .refl _
  | (pass, s) :: mid, done, m, hscript, hdone, h, hcs => by
    obtain ⟨k, hrun, h⟩ := play_cons.1 h
    obtain ⟨htouched, hcs⟩ := forall_mem_cons.1 hcs
    have hstep := (step_enters hscript (enrolled_of_play hscript hdone) () k hrun).1
    have hsplit : d.script (d.passes o) = (done ++ [(pass, s)]) ++ (mid ++ after) := by
      rw [hscript, append_assoc, singleton_append, cons_append]
    exact (hstep.within_mono htouched).trans
      (grows_of_play hsplit (play_append.2 ⟨m, hdone, play_single.2 hrun⟩) h hcs)

/-- **The elements of a model are those that the steps so far have declared, in order, each in
its category.** -/
theorem elements_of_play (hscript : d.script (d.passes o) = done ++ after)
    (h : play done { options := o } = .ok ((), m)) :
    m.elements.map (fun e => (e.label, e.category?)) =
      (done.flatMap taken).map fun x => (x.1.label, x.2) := by
  have henrolled := enrolled_of_play hscript h
  have henrols := enrolls_of_play
    (fun _ hx => mem_steps (hscript ▸ mem_append_left after hx)) h
  -- The category is read off the label on both sides.
  let kind (label : String × String) := (label, (m.declared? label.2).bind (·.category?))
  have hlabels : m.elements.map Element.label = ((done.flatMap taken).map (·.1)).map Header.label := henrols.labels
  have helements : m.elements.map (fun e => (e.label, e.category?)) = (m.elements.map Element.label).map kind := by
    rw [map_map]
    refine map_congr_left fun e he => ?_
    show _ = (e.label, (m.declared? e.path).bind _)
    rw [henrolled.tidy.distinct.declared? he, Option.bind_some]
  rw [helements, hlabels, map_map, map_map]
  refine map_congr_left fun x hx => ?_
  obtain ⟨e, he, hc⟩ := henrolled.kinds x hx
  show (x.1.label, (m.declared? x.1.path).bind _) = _
  rw [he, Option.bind_some, hc]

theorem play_of_runs (hsplit : d.passes o = pre ++ post) (h : Runs pre { options := o } m) :
    play (d.script pre) { options := o } = .ok ((), m) ∧
      d.script (d.passes o) = d.script pre ++ d.script post := by
  have hsub : pre ⊆ d.passes o := hsplit ▸ subset_append_left _ _
  exact ⟨(runs_iff_play hsub).1 h, hsplit ▸ script_append d pre post⟩

theorem tidy_of_runs (hsplit : d.passes o = pre ++ post) (h : Runs pre { options := o } m) : m.Tidy := by
  obtain ⟨hplay, hscript⟩ := play_of_runs hsplit h
  exact (enrolled_of_play hscript hplay).tidy

/-- **From where a build has come to, on to the end of some pass, it touches only elements of the
categories that the passes in between touch.** -/
theorem At.grows_runs {i : Nat} (h : d.At o pass i m)
    (hsplit : d.passes o = pre ++ post) (hruns : Runs pre { options := o } n) (hmem : pass ∈ pre.map (·.name))
    (hpass : i < (d.steps pass).length → touched pass ⊆ cs)
    (hcs : ∀ x ∈ ((pre.map (·.name)).dropWhile (· != pass)).tail, touched x ⊆ cs) : Grows (within cs) m n := by
  obtain ⟨pre₀, p, post₀, k, hps, rfl, hreached⟩ := h
  obtain ⟨q, hq, hname⟩ := mem_map.1 hmem
  obtain ⟨before, mid, rfl⟩ := append_of_mem hq
  rw [append_assoc] at hsplit
  obtain ⟨rfl, rfl, rfl⟩ := pass_unique hps hsplit hname
  obtain ⟨hplay, hall⟩ := play_of_runs (hsplit.trans (append_assoc before (q :: mid) post).symm) hruns
  have hdone := (at_iff_play hps).1 ⟨k, hreached⟩
  -- The steps that are left of the pass, and those of the passes behind it.
  rw [script_place rfl i] at hplay hall
  obtain ⟨m', hm', hrest⟩ := play_append.1 hplay
  cases hdone.symm.trans hm'
  refine grows_of_play (hall.trans (append_assoc ..)) hdone hrest (forall_mem_append.2 ⟨fun x hx => ?_, fun x hx => ?_⟩)
  · obtain ⟨s, hs, rfl⟩ := mem_map.1 hx
    refine hpass (Nat.lt_of_not_le fun hle => ?_)
    rw [drop_of_length_le hle] at hs
    cases hs
  · obtain ⟨r, hr, hx⟩ := mem_flatMap.1 hx
    obtain ⟨s, -, rfl⟩ := mem_map.1 hx
    rw [map_append, map_cons, dropWhile_append_of_pos (ne_before hps),
      dropWhile_cons_of_neg (by simp)] at hcs
    exact hcs r.name (mem_map_of_mem hr)

theorem elements_of_runs (hsplit : d.passes o = pre ++ post) (h : Runs pre { options := o } m) :
    m.elements.map (fun e => (e.label, e.category?)) = (d.entriesOf pre).map fun x => (x.1.label, x.2) := by
  obtain ⟨hplay, hscript⟩ := play_of_runs hsplit h
  rw [elements_of_play hscript hplay, script_taken]

/-- Elements of several kinds: a class with the name of a library class, a measure with
two units and a function. -/
def kinds : Document :=
  { classes := [{ header := { package := "m", name := "Package" } }]
    functions := [{ header := { package := "m", name := "f" }, returnName := "Integer"
                    bounds := { lower := 1, upper := some 1 } }]
    measures := [{ header := { package := "m", name := "Mass" }
                   canonical := some { header := { package := "m", name := "Gram" } }
                   nonCanonical := [{ header := { package := "m", name := "Ton" } }] }] }

end Document
end ModelGraph
