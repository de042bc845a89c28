/-
# Cycles among supertypes are found

When classes have their structure, the check of supertypes goes over the edges between
declared classes. No class of the library extends a declared one, so these are all the
edges that a cycle through a declared class can use. The check fails exactly if there is
such a cycle, and then it names the first class of the document that lies on one. Later
passes leave supertypes alone; so supertypes are well-founded in a model that is built.

Key definitions: `Model.Extends`, `Document.Structured`.
Key theorems: `Document.Structured.check_cases`, `Document.Structured.wellFounded`,
`Document.supertype_cycles_rejected`.
-/
import ModelGraph.Proofs.Build.Typing
import ModelGraph.Proofs.Search.Cycle

namespace ModelGraph

open Model Build Relation List Search

/-- A class extends another directly. -/
def Model.Extends (m : Model) (x y : String) : Prop :=
  ∃ c, m.class? x = some c ∧ ∃ s ∈ c.supers, s.1.path = y

/-! ### Classes of the library -/

namespace Library

def extended (path : String) : List String :=
  match find? path with
  | some e => e.superEdges.map (·.1.path)
  | none => []

/-- The types of the library that others of it extend. -/
def bases : List TypeRef :=
  [any, number, date, typeClass, functionClass, setClass, fetchTreeClass, milestoningClass]

theorem plain_supers_mem_bases : ∀ g ∈ plainGroups, ∀ e ∈ g.2, ∀ s ∈ e.superEdges, s.1 ∈ bases := by
  decide +kernel

theorem bases_found : ∀ t ∈ bases, (find? t.path).any fun e =>
    e.superEdges.all fun s => s.1.path = any.path && t.path != any.path := by
  decide +kernel

/-- The paths of the elements of the library but for functions. -/
def plainPaths : List String := plainGroups.flatMap fun g => g.2.map (·.path)

variable {x y : String}

theorem exists_plain_of_extended (h : y ∈ extended x) : x ∈ plainPaths ∧ ∃ t ∈ bases, t.path = y := by
  unfold extended at h
  split at h
  · rename_i e he
    obtain ⟨s, hs, rfl⟩ := mem_map.1 h
    rcases plain_or_native he with ⟨g, hg, hmem⟩ | ⟨n, package, rfl⟩
    · exact ⟨mem_flatMap.2 ⟨g, hg, mem_map.2 ⟨e, hmem, path_of_library he⟩⟩,
        s.1, plain_supers_mem_bases g hg e hmem s hs, rfl⟩
    · cases hs
  · cases h

theorem find?_isSome_of_extended (h : y ∈ extended x) : (find? y).isSome := by
  obtain ⟨-, t, ht, rfl⟩ := exists_plain_of_extended h
  have hbase := bases_found t ht
  rcases he : find? t.path with _ | e
  · rw [he] at hbase
    cases hbase
  · rfl

theorem extended_base {t : TypeRef} (ht : t ∈ bases) (h : y ∈ extended t.path) :
    y = any.path ∧ t.path ≠ any.path := by
  have hbase := bases_found t ht
  unfold extended at h
  split at h
  · rename_i e he
    obtain ⟨s, hs, rfl⟩ := mem_map.1 h
    rw [he] at hbase
    simpa using all_eq_true.1 hbase s hs
  · cases h

theorem extended_acyclic (x : String) : ¬ TransGen (Edge extended) x x := by
  intro h
  -- Two steps along the cycle lead to the type above all others, and there is no third.
  obtain ⟨y, hxy, hyx⟩ := TransGen.head'_iff.1 h
  obtain ⟨-, t, ht, rfl⟩ := exists_plain_of_extended hxy
  obtain ⟨z, hyz, hzy⟩ := TransGen.head'_iff.1 (TransGen.tail' hyx hxy)
  obtain ⟨rfl, -⟩ := extended_base ht hyz
  obtain ⟨w, hzw, -⟩ := TransGen.head'_iff.1 (TransGen.tail' hzy hyz)
  exact (extended_base (.head _) hzw).2 rfl

end Library

namespace Model

variable {m n : Model} {x y : String} {K : Option Category → Prop}

/-- A class that extends something is declared, or it is one of the library and so is what
it extends. -/
theorem Extends.cases (h : m.Extends x y) :
    (∃ e, m.declared? x = some e ∧ e.category? = some .classType ∧ ∃ s ∈ e.superEdges, s.1.path = y) ∨
      m.declared? x = none ∧ y ∈ Library.extended x := by
  obtain ⟨c, hc, s, hs, rfl⟩ := h
  obtain ⟨e, he, hec⟩ := Option.bind_eq_some_iff.1 hc
  have hcontent : e.content = .classType c := by
    unfold Element.class? at hec
    split at hec <;> cases hec
    assumption
  have hedge : s ∈ e.superEdges := by
    rw [Element.superEdges, hcontent]
    exact hs
  unfold element? at he
  split at he
  · rename_i x hx
    cases he
    exact .inl ⟨e, hx, by rw [Element.category?, hcontent], s, hedge, rfl⟩
  · rename_i hx
    refine .inr ⟨hx, ?_⟩
    rw [Library.extended, he]
    exact mem_map_of_mem hedge

theorem Extends.of_declared {e : Element} (he : m.declared? x = some e) (hc : e.category? = some .classType)
    {s : TypeRef × Span} (hs : s ∈ e.superEdges) (hy : s.1.path = y) : m.Extends x y := by
  have hhas : m.Has x .classType := ⟨e, he, hc⟩
  obtain ⟨e', c, he', hcontent, hclass⟩ := hhas.class?
  cases he.symm.trans he'
  rw [Element.superEdges, hcontent] at hs
  exact ⟨c, hclass, s, hs, hy⟩

theorem Tidy.has_of_extends (hm : m.Tidy) (h : m.Extends x y) (hy : (m.declared? y).isSome) :
    m.Has x .classType := by
  rcases h.cases with ⟨e, he, hc, -⟩ | ⟨-, hlib⟩
  · exact ⟨e, he, hc⟩
  · obtain ⟨e, he⟩ := Option.isSome_iff_exists.1 hy
    have hfound := Library.find?_isSome_of_extended hlib
    rw [hm.apart he] at hfound
    cases hfound

theorem Tidy.transGen_extended (hm : m.Tidy) (hx : m.declared? x = none)
    (h : TransGen m.Extends x y) : TransGen (Edge Library.extended) x y := by
  have step {a b : String} (ha : m.declared? a = none) (hab : m.Extends a b) :
      b ∈ Library.extended a ∧ m.declared? b = none := by
    rcases hab.cases with ⟨e, he, -⟩ | ⟨-, hlib⟩
    · rw [ha] at he
      cases he
    · refine ⟨hlib, Option.not_isSome_iff_eq_none.1 fun hb => ?_⟩
      obtain ⟨e, he, -⟩ := hm.has_of_extends hab hb
      rw [ha] at he
      cases he
  suffices h : TransGen (Edge Library.extended) x y ∧ m.declared? y = none from h.1
  induction h with
  | single hxy => exact ⟨.single (step hx hxy).1, (step hx hxy).2⟩
  | tail _ hab ih => exact ⟨ih.1.tail (step ih.2 hab).1, (step ih.2 hab).2⟩

def extendingPaths (m : Model) : List String := m.elements.map (·.path) ++ Library.plainPaths

theorem Extends.mem_extendingPaths (h : m.Extends x y) : x ∈ m.extendingPaths := by
  rcases h.cases with ⟨e, he, -⟩ | ⟨-, hlib⟩
  · exact mem_append_left _ (mem_map.2 ⟨e, mem_of_declared? he, path_of_declared? he⟩)
  · exact mem_append_right _ (Library.exists_plain_of_extended hlib).1

end Model

/-! ### After the structure of classes -/

theorem ClassDecl.structureStep_extends (x : ClassDecl) {m : Model} (hx : m.Has x.header.path .classType) :
    x.structureStep.Ensures m fun _ m' =>
      ∃ e, m'.declared? x.header.path = some e ∧ e.superEdges ≠ [] := by
  obtain ⟨e, he, -⟩ := hx
  unfold structureStep
  simp only [ensures_bind, ensures_context, ensures_get, ensures_liftM]
  intro named hnamed
  refine ensures_mapM_liftM fun properties _ => ensures_mapM_liftM fun qualified _ =>
    ensures_mapM_liftM fun originals _ => ?_
  rw [ensures_classOf]
  intro stage _
  rw [ensures_setClass]
  refine ⟨_, by rw [declared?_setContent, if_pos rfl, he]; rfl, ?_⟩
  simp only [Element.superEdges]
  split
  · exact cons_ne_nil _ _
  · rename_i hne
    simpa [List.isEmpty_iff] using hne

namespace Document

variable {d : Document} {o : Options} {m n : Model} {x y : String}

/-- A model in which the classes of a document, and no others, have their structure. -/
structure Structured (d : Document) (m : Model) : Prop where
  tidy : m.Tidy
  declared : ∀ c ∈ d.classes, m.Has c.header.path .classType
  /-- The declared classes are those of the document. -/
  only : ∀ {p}, m.Has p .classType → p ∈ d.classPaths
  nodup : d.classPaths.Nodup
  /-- Every class extends something. -/
  filled : ∀ c ∈ d.classes, ∃ e, m.declared? c.header.path = some e ∧ e.superEdges ≠ []

theorem mem_classPaths {done after : List (String × Step)} {p : String} (hscript : d.script (d.passes o) = done ++ after)
    (hplay : play done { options := o } = .ok ((), m)) (hp : m.Has p .classType) : p ∈ d.classPaths := by
  obtain ⟨c, hc⟩ := hp.staged_class
  obtain ⟨s, hs, y, hy, rfl⟩ := made_eq_true.1 ((ledger_of_play hscript hplay).declared hc)
  obtain ⟨x, hx, rfl⟩ := mem_map.1 (mem_steps (hscript ▸ mem_append_left _ hs))
  exact mem_map.2 ⟨x, hx, by rw [mem_singleton.1 hy]⟩

/-- Once the pass over structures has made its steps, classes have their structure. -/
theorem At.structured (h : d.At o "classes.structure" (d.steps "classes.structure").length m) : d.Structured m := by
  refine ⟨h.tidy, fun c hc => h.kinds rfl (mem_map_of_mem hc) _ (.head _), fun hp => ?_,
    h.paths_nodup rfl rfl, fun c hc => ?_⟩
  · obtain ⟨pre, q, post, k, hps, hname, hreached⟩ := id h
    rw [← hname] at hreached
    exact mem_classPaths (script_place hps _) ((at_iff_play hps).1 ⟨k, hreached⟩) hp
  · obtain ⟨i, hi⟩ := mem_iff_getElem?.1 hc
    obtain ⟨pre, q, post, k, hps, hname, hruns, -⟩ := id h
    have hstart : d.At o "classes.structure" 0 k := ⟨pre, q, post, k, hps, hname, hruns, rfl⟩
    obtain ⟨n, n', hat, hrun, -, hg⟩ := At.around (R := Grows (fun _ => True)) (fun m => .refl m) (fun h h' => h.trans h')
      hstart h (getElem?_stepsOver hi) fun _ ht hn hrun => by
        obtain ⟨done, after, hscript, hplay⟩ := hn.reached ht
        exact (step_enters hscript (enrolled_of_play hscript hplay) () _ hrun).1.any
    obtain ⟨e, he, hne⟩ := c.structureStep_extends
      (hat.kinds rfl (mem_map_of_mem hc) _ (.head _)) () n' hrun
    obtain ⟨e', he', hgrown, -⟩ := hg.kept he
    exact ⟨e', he', (hgrown.supers.resolve_left hne).symm ▸ hne⟩

theorem at_structure (h : Runs d.structurePasses { options := o } m) :
    d.At o "classes.structure" (d.steps "classes.structure").length m := by
  obtain ⟨k, htypes, n, hrun, rfl⟩ := (runs_append _ _).1 h
  have hstart : d.At o "classes.structure" 0 k :=
    ⟨_, _, _, k, (passes_structure d o).trans (append_assoc ..), rfl, htypes, rfl⟩
  have hlength : (d.steps "classes.structure").length = d.classes.length := length_map _
  rw [← take_length (l := d.classes), ← hlength] at hrun
  exact hstart.each rfl hrun

namespace Structured

theorem has_iff (hs : d.Structured m) : m.Has x .classType ↔ x ∈ d.classPaths := by
  refine ⟨hs.only, fun hx => ?_⟩
  obtain ⟨c, hc, rfl⟩ := mem_map.1 hx
  exact hs.declared c hc

theorem mem_declaredSupers : y ∈ declaredSupers m d.classPaths x ↔ m.Extends x y ∧ y ∈ d.classPaths := by
  unfold declaredSupers Extends
  rcases m.class? x with _ | c
  · simp
  · simp only [mem_filter, mem_map, contains_iff_mem, Option.some.injEq, exists_eq_left']

theorem transGen_declared (hs : d.Structured m) (h : TransGen m.Extends x y) (hy : y ∈ d.classPaths) :
    x ∈ d.classPaths ∧ TransGen (Edge (declaredSupers m d.classPaths)) x y := by
  have back {a b : String} (hab : m.Extends a b) (hb : b ∈ d.classPaths) : a ∈ d.classPaths := by
    obtain ⟨e, he, -⟩ := hs.has_iff.2 hb
    exact hs.only (hs.tidy.has_of_extends hab (by rw [he]; rfl))
  induction h using TransGen.head_induction_on with
  | single hab => exact ⟨back hab hy, .single (mem_declaredSupers.2 ⟨hab, hy⟩)⟩
  | head hab _ ih => exact ⟨back hab ih.1, .head (mem_declaredSupers.2 ⟨hab, ih.1⟩) ih.2⟩

theorem cyclic_iff (hs : d.Structured m) (hx : x ∈ d.classPaths) :
    TransGen (Edge (declaredSupers m d.classPaths)) x x ↔ TransGen m.Extends x x :=
  ⟨fun h => TransGen.mono (fun _ _ hab => (mem_declaredSupers.1 hab).1) _ _ h,
    fun h => (hs.transGen_declared h hx).2⟩

def foundCycle (d : Document) (m : Model) : Option (List String) :=
  Search.firstCycle? (declaredSupers m d.classPaths) (d.classPaths.length + 1) d.classPaths

theorem check_eq (m : Model) : checkSupertypeCycles d.classes m = (match foundCycle d m with
    | none => return ()
    | some cycle => fail (((d.classes.find? fun c => cycle.head? = some c.header.path).map
        fun c => c.header.span).getD {}) (.superTypeCycle cycle) : Build Unit) m := rfl

section

variable (hs : d.Structured m)
include hs

theorem find?_decl {c : ClassDecl} (hc : c ∈ d.classes) (rest : List String) :
    (d.classes.find? fun b => (c.header.path :: rest).head? = some b.header.path) = some c := by
  obtain ⟨b, hb⟩ := Option.isSome_iff_exists.1 (find?_isSome.2 ⟨c, hc, decide_eq_true rfl⟩ :
    (d.classes.find? fun b => (c.header.path :: rest).head? = some b.header.path).isSome)
  rw [hb]
  have hpath : c.header.path = b.header.path := by simpa using find?_some hb
  exact congrArg some (inj_on_of_nodup_map hs.nodup (mem_of_find?_eq_some hb) hc hpath.symm)

/-- What the check of supertypes comes to: it passes if no declared class lies on a cycle,
and fails at the first class that does otherwise. -/
theorem check_cases :
    (∀ c ∈ d.classes, ¬ TransGen m.Extends c.header.path c.header.path) ∧
        checkSupertypeCycles d.classes m = .ok ((), m) ∨
      ∃ before c after walk, d.classes = before ++ c :: after ∧
        (∀ b ∈ before, ¬ TransGen m.Extends b.header.path b.header.path) ∧
        List.IsChain m.Extends (c.header.path :: walk) ∧ walk.getLast? = some c.header.path ∧
        checkSupertypeCycles d.classes m =
          .error (.of c.header.span (.superTypeCycle (c.header.path :: walk))) := by
  classical
  have hb : d.classPaths.length < d.classPaths.length + 1 := Nat.lt_succ_self _
  have hclosed : Closed (declaredSupers m d.classPaths) d.classPaths :=
    fun _ _ _ hy => (mem_declaredSupers.1 hy).2
  rcases hfind : d.classes.find? fun c => TransGen m.Extends c.header.path c.header.path with _ | c
  · left
    have hnone : ∀ c ∈ d.classes, ¬ TransGen m.Extends c.header.path c.header.path := by
      simpa using find?_eq_none.1 hfind
    refine ⟨hnone, ?_⟩
    have hcycle : foundCycle d m = none := firstCycle?_eq_none hclosed hb fun p hp hcyc => by
      obtain ⟨c, hc, rfl⟩ := mem_map.1 hp
      exact hnone c hc ((hs.cyclic_iff hp).1 hcyc)
    rw [check_eq, hcycle]
    rfl
  · right
    obtain ⟨hc, before, after, hsplit, hbefore⟩ := find?_eq_some_iff_append.1 hfind
    have hpaths : d.classPaths = before.map (·.header.path) ++ c.header.path :: after.map (·.header.path) := by
      rw [classPaths, hsplit, map_append, map_cons]
    have hfirst : ∀ b ∈ before, ¬ TransGen m.Extends b.header.path b.header.path := by
      simpa using hbefore
    have hcm : c ∈ d.classes := mem_of_find?_eq_some hfind
    obtain ⟨found, hcycle, hcircuit⟩ := exists_firstCycle? hclosed hb hpaths
      (fun p hp hcyc => by
        obtain ⟨b, hbm, rfl⟩ := mem_map.1 hp
        have hbp : b.header.path ∈ d.classPaths := hpaths ▸ mem_append_left _ hp
        exact hfirst b hbm ((hs.cyclic_iff hbp).1 hcyc))
      ((hs.cyclic_iff (mem_map_of_mem hcm)).2 (by simpa using hc))
    obtain ⟨walk, rfl, hchain, hlast⟩ := hcircuit.walkTo
    refine ⟨before, c, after, walk, hsplit, hfirst,
      hchain.imp fun _ _ hab => (mem_declaredSupers.1 hab).1, hlast, ?_⟩
    have hfound : foundCycle d m = some (c.header.path :: walk) := hcycle
    rw [check_eq, hfound]
    show failAt (((d.classes.find? fun b => (c.header.path :: walk).head? = some b.header.path).map
      fun c => c.header.span).getD {}) _ = _
    rw [hs.find?_decl hcm walk]
    rfl

/-- If the check passes, nothing extends itself: declared classes do not, and cycles of
other classes are cycles of the library. -/
theorem acyclic (hcheck : checkSupertypeCycles d.classes m = .ok ((), n)) (x : String) :
    ¬ TransGen m.Extends x x := by
  intro hx
  rcases hs.check_cases with ⟨hnone, -⟩ | ⟨_, _, _, _, -, -, -, -, herror⟩
  · obtain ⟨y, hxy, -⟩ := TransGen.head'_iff.1 hx
    rcases hxy.cases with ⟨e, he, hc, -⟩ | ⟨hlib, -⟩
    · obtain ⟨c, hmem, rfl⟩ := mem_map.1 (hs.only ⟨e, he, hc⟩)
      exact hnone c hmem hx
    · exact Library.extended_acyclic x (hs.tidy.transGen_extended hlib hx)
  · rw [hcheck] at herror
    cases herror

theorem wellFounded (hcheck : checkSupertypeCycles d.classes m = .ok ((), n)) :
    WellFounded fun y x => m.Extends x y :=
  wellFounded_of_acyclic m.extendingPaths Extends.mem_extendingPaths fun x hx =>
    hs.acyclic hcheck x (transGen_swap.1 hx)

end

theorem extends_of_grows {K : Option Category → Prop} (hs : d.Structured n) (hg : Grows K n m)
    (hclass : ∀ {p}, m.Has p .classType → p ∈ d.classPaths) (h : m.Extends x y) : n.Extends x y := by
  rcases h.cases with ⟨e, he, hc, s, hmem, hy⟩ | ⟨hnone, -⟩
  · obtain ⟨c, hcm, rfl⟩ := mem_map.1 (hclass ⟨e, he, hc⟩)
    obtain ⟨e₀, he₀, hne⟩ := hs.filled c hcm
    obtain ⟨e₁, he₁, hgrown, -⟩ := hg.kept he₀
    cases he.symm.trans he₁
    rw [hgrown.supers.resolve_left hne] at hmem
    exact .of_declared he₀ (hgrown.category.symm.trans hc) hmem hy
  · have hnone' : n.declared? x = none := by
      rcases hx : n.declared? x with _ | e
      · rfl
      · obtain ⟨e', he', -⟩ := hg.kept hx
        rw [hnone] at he'
        cases he'
    have heq : n.class? x = m.class? x := by
      rw [class?, class?, element?, element?, hnone, hnone']
    rwa [Extends, heq]

end Structured

/-! ### Builds -/

/-- The pass that checks supertypes comes after the structure of classes, and it is the only
one of its name. -/
theorem eq_of_passes_split {pre post : List Pass} {p : Pass} (hsplit : d.passes o = pre ++ p :: post)
    (hp : p.name = "classes.generalizations") :
    pre = d.structurePasses ∧ p.run = checkSupertypeCycles d.classes := by
  have hbefore : ∀ r ∈ d.structurePasses, r.name ≠ "classes.generalizations" := by
    simp [structurePasses, typePasses, Pass.each, Pass.whole]
  have hafter : ∀ r ∈ d.memberPasses ++ (d.bodyPasses ++ d.mappingPasses o),
      r.name ≠ "classes.generalizations" := by
    simp [memberPasses, bodyPasses, mappingPasses, Pass.each, Pass.whole]
  rw [passes_structure, cyclePasses] at hsplit
  split at hsplit
  · obtain ⟨rfl, rfl⟩ := eq_of_split hp hafter hbefore hsplit
    exact ⟨rfl, rfl⟩
  · have hmem : p ∈ d.structurePasses ++ ([] ++ (d.memberPasses ++ (d.bodyPasses ++ d.mappingPasses o))) :=
      hsplit ▸ mem_append_right _ (.head _)
    rcases mem_append.1 hmem with hmem | hmem
    · exact absurd hp (hbefore p hmem)
    · exact absurd hp (hafter p hmem)

theorem exists_structured (hm : (d.build o).result = .ok m) :
    ∃ n, d.Structured n ∧ (o.cycles = true → ∃ k, checkSupertypeCycles d.classes n = .ok ((), k)) ∧
      Grows (fun _ => True) n m := by
  have hruns := (runPasses_result _ _).1 hm
  rw [passes_structure] at hruns
  obtain ⟨n, hstructure, hrest⟩ := (runs_append _ _).1 hruns
  obtain ⟨n', hcheck, -⟩ := (runs_append _ _).1 hrest
  have hat := at_structure hstructure
  refine ⟨n, hat.structured, fun hc => ?_, hat.grows_any hm⟩
  rw [cyclePasses, if_pos hc] at hcheck
  obtain ⟨k, hrun, -⟩ := hcheck
  exact ⟨k, hrun⟩

/-- **Cycles among supertypes are rejected, and only they.** When the pass that checks
supertypes is reached, it fails exactly if a declared class reaches itself through what
classes extend. The failure ends the build; it tells a closed chain of supertypes at the
position of the class that the chain starts from, which is the first of the document that
lies on a cycle. In a model that is built with the check, supertypes are well-founded. -/
theorem supertype_cycles_rejected :
    (∀ (pre : List Pass) (p : Pass) (post : List Pass) (n : Model), d.passes o = pre ++ p :: post →
      p.name = "classes.generalizations" → Runs pre { options := o } n →
      ((∃ f, p.run n = .error f) ↔ ∃ c ∈ d.classes, TransGen n.Extends c.header.path c.header.path) ∧
      ∀ f, p.run n = .error f → (d.build o).result = .error f ∧
        ∃ before c after walk, d.classes = before ++ c :: after ∧
          (∀ b ∈ before, ¬ TransGen n.Extends b.header.path b.header.path) ∧
          List.IsChain n.Extends (c.header.path :: walk) ∧ walk.getLast? = some c.header.path ∧
          f = .of c.header.span (.superTypeCycle (c.header.path :: walk))) ∧
    (o.cycles = true → ∀ m, (d.build o).result = .ok m → WellFounded fun y x => m.Extends x y) := by
  refine ⟨fun pre p post n hsplit hp hruns => ?_, fun hc m hm => ?_⟩
  · obtain ⟨rfl, hrun⟩ := eq_of_passes_split hsplit hp
    have hs := (at_structure hruns).structured
    have hresult : ∀ f, p.run n = .error f → (d.build o).result = .error f := fun f hf => by
      rw [build, hsplit]
      exact runPasses_error hf _ _ hruns
    rcases hs.check_cases with ⟨hnone, hok⟩ | ⟨before, c, after, walk, hclasses, hfirst, hchain, hlast, herror⟩
    · rw [← hrun] at hok
      refine ⟨⟨?_, ?_⟩, fun f hf => ?_⟩
      · rintro ⟨f, hf⟩
        rw [hok] at hf
        cases hf
      · rintro ⟨c, hc, hcycle⟩
        exact absurd hcycle (hnone c hc)
      · rw [hok] at hf
        cases hf
    · rw [← hrun] at herror
      have hcycle : TransGen n.Extends c.header.path c.header.path :=
        Search.WalkTo.transGen ⟨hchain, hlast⟩
      refine ⟨⟨fun _ => ⟨c, ?_, hcycle⟩, fun _ => ⟨_, herror⟩⟩, fun f hf => ⟨hresult f hf, ?_⟩⟩
      · rw [hclasses]
        exact mem_append_right _ (.head _)
      · cases herror.symm.trans hf
        exact ⟨before, c, after, walk, hclasses, hfirst, hchain, hlast, rfl⟩
  · obtain ⟨n, hs, hcheck, hg⟩ := exists_structured hm
    obtain ⟨k, hk⟩ := hcheck hc
    refine Subrelation.wf (fun {y x} hxy => ?_) (hs.wellFounded hk)
    refine hs.extends_of_grows hg (fun {p} hp => ?_) hxy
    exact mem_classPaths (append_nil _).symm (play_of_build hm) hp

/-- Three classes, each of which extends the next; the last extends what is given. -/
def supertypeChain (last : List Pointer) : Document :=
  { classes :=
      [{ header := { package := "m", name := "T" }, superTypes := [{ path := "m::A" }] },
       { header := { package := "m", name := "A", span := { startLine := 7 } },
         superTypes := [{ path := "m::B" }] },
       { header := { package := "m", name := "B" }, superTypes := last }] }

/-- The chain with a way back from its last class to the one in the middle. -/
def tailedCycle : Document := supertypeChain [{ path := "m::A" }]

/-- The chain is rejected if it ends in a cycle, at the first class of the cycle. -/
theorem supertypeChain_checked :
    (∃ n, Runs tailedCycle.structurePasses {} n ∧ TransGen n.Extends "m::A" "m::A" ∧
      (tailedCycle.build {}).result =
        .error (.of { startLine := 7 } (.superTypeCycle ["m::A", "m::B", "m::A"]))) ∧
    ∃ m, ((supertypeChain []).build {}).result = .ok m ∧ m.Extends "m::T" "m::A" ∧
      WellFounded fun y x => m.Extends x y := by
  constructor
  · have h : ((runPasses tailedCycle.structurePasses {}).result.toOption.map
        fun n => match checkSupertypeCycles tailedCycle.classes n with
          | .error f => some f
          | .ok _ => none) =
        some (some (.of { startLine := 7 } (.superTypeCycle ["m::A", "m::B", "m::A"]))) := by
      decide +kernel
    obtain ⟨n, hn, hcheck⟩ := Option.map_eq_some_iff.1 h
    have hruns := (runPasses_result _ _).1 (Result.toOption_eq_some.1 hn)
    split at hcheck
    · rename_i f hf
      cases hcheck
      have hsplit : tailedCycle.passes {} = tailedCycle.structurePasses ++
          .whole "classes.generalizations" 3 (checkSupertypeCycles tailedCycle.classes) ::
            (tailedCycle.memberPasses ++ tailedCycle.bodyPasses ++ tailedCycle.mappingPasses {}) := rfl
      obtain ⟨-, hfail⟩ := (supertype_cycles_rejected (o := {})).1 _ _ _ n hsplit rfl hruns
      obtain ⟨hresult, before, c, after, walk, hclasses, -, hchain, hlast, hwalk⟩ := hfail _ hf
      have hstart : "m::A" = c.header.path := by
        simp only [Failure.of, Failure.diagnosed.injEq, Problem.superTypeCycle.injEq, List.cons.injEq] at hwalk
        exact hwalk.2.1.1
      rw [← hstart] at hchain hlast
      exact ⟨n, hruns, Search.WalkTo.transGen ⟨hchain, hlast⟩, hresult⟩
    · cases hcheck
  · obtain ⟨m, hok, hextends⟩ : ∃ m, ((supertypeChain []).build {}).result = .ok m ∧
        ∃ c, m.class? "m::T" = some c ∧ ∃ s ∈ c.supers, s.1.path = "m::A" := by decide +kernel
    exact ⟨m, hok, hextends, supertype_cycles_rejected.2 rfl m hok⟩

end Document
end ModelGraph
