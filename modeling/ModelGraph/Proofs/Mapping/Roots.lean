/-
# The root among the class mappings of a class

A class mapping is built with the flag that its declaration gives. The only class mapping of a class
in a mapping is then made its root, and where there are several the flags stay as they are declared.
Linking keeps them. So the check of roots, which counts class mappings by their classes, finds one
root for each class, or else the roots that are declared for one with several class mappings.

Key definitions: `MappingDecl.setsFor`, `Mapping.setsFor`.
Key theorems: `Document.Progress.roots_at`, `Model.checkRoots_eq_ok`, `Document.one_root_per_class`.
-/
import ModelGraph.Proofs.Mapping.Mapped
import ModelGraph.Proofs.Mapping.Validation

namespace ModelGraph

open ClassMappingAttrs

open List hiding get

open Model Build Document

variable {m n : Model} {path name : String} {span : Span} {x : Mapping} {d : Document} {o : Options}

namespace ClassMappingDecl

def isFor (m : Model) (path name : String) (s : ClassMappingDecl) : Bool :=
  match (Context.of m path).resolveClass s.attrs.className (s.attrs.classSpan.orElse s.attrs.span) with
  | .ok t => t.path = name
  | .error _ => false

end ClassMappingDecl

def MappingDecl.setsFor (m : Model) (a : MappingDecl) (name : String) : List ClassMappingDecl :=
  a.classMappings.filter (·.isFor m a.header.path name)

def Mapping.setsFor (x : Mapping) (name : String) : List SetImplementation :=
  x.sets.filter fun s => s.base.className.path = name

/-! ### Building and marking -/

/-- A class mapping goes with the class and the flag of its declaration. -/
structure ClassMappingDecl.Declares (m : Model) (path : String) (s : ClassMappingDecl) (t : SetImplementation) :
    Prop where
  className : (Context.of m path).resolveClass s.attrs.className (s.attrs.classSpan.orElse s.attrs.span) =
    .ok t.base.className
  root : t.base.root = s.attrs.root

theorem ClassMappingDecl.build_declares (hr : n.Retains m) : ∀ (s : ClassMappingDecl) (fallback : String),
    (build path s fallback).Compiles n (s.Declares m path) := by
  have hdeclares {a main aggregates k b s} (hb : ClassMappingAttrs.Heads n path a k b)
      (hclass : s.base.className = b.className) (hroot : s.base.root = b.root) :
      Declares m path (mk a main aggregates) s :=
    ⟨by rw [(hr.noted hb.noted).resolveClass, hclass]; exact hb.className, hroot.trans hb.root⟩
  refine BuildLaws.compiles ⟨?_, fun hb _ _ _ => hdeclares hb rfl rfl⟩
  rintro a _ _ k b _ hb - (- | - | -)
  all_goals exact hdeclares hb rfl rfl

theorem SetImplementation.base_withBase (f : SetBase → SetBase) (s : SetImplementation) :
    (s.withBase f).base = f s.base := by
  cases s <;> rfl

theorem filter_markRoots (sets : List SetImplementation) (name : String) :
    (markRoots sets).filter (fun s => s.base.className.path = name) =
      let mine := sets.filter fun s => s.base.className.path = name
      if mine.length = 1 then mine.map (·.withBase fun b => { b with root := true }) else mine := by
  have hclass (s : SetImplementation) (c : Prop) [Decidable c] :
      (if c then s.withBase fun b => { b with root := true } else s).base.className = s.base.className := by
    split
    · rw [SetImplementation.base_withBase]
    · rfl
  have hkept : ((fun s : SetImplementation => decide (s.base.className.path = name)) ∘ fun s =>
      if (sets.filter fun t => t.base.className.path = s.base.className.path).length = 1 then
        s.withBase fun b => { b with root := true } else s) = fun s => decide (s.base.className.path = name) := by
    funext s
    rw [Function.comp_apply, hclass]
  rw [markRoots, filter_map, hkept]
  dsimp only
  split
  · rename_i hone
    refine map_congr_left fun s hs => ?_
    have hname : s.base.className.path = name := by simpa using (mem_filter.1 hs).2
    rw [hname, if_pos hone]
  · rename_i hone
    refine (map_congr_left fun s hs => ?_).trans (map_id' _)
    have hname : s.base.className.path = name := by simpa using (mem_filter.1 hs).2
    rw [hname, if_neg hone]

/-- **The roots of a class in a mapping.** There are as many class mappings for it as are declared.
One alone is the root, and several have as many roots as are declared. -/
theorem Document.Progress.roots_at (t : d.Progress o m) {a : MappingDecl} (ha : a ∈ d.mappings) :
    ∃ x, m.mapping? a.header.path = some x ∧ ∀ name, (x.setsFor name).length = (a.setsFor m name).length ∧
      ((x.setsFor name).filter (·.base.root)).length =
        if (a.setsFor m name).length = 1 then 1 else ((a.setsFor m name).filter (·.attrs.root)).length := by
  obtain ⟨i, hi⟩ := getElem?_of_mem ha
  obtain ⟨n, n', k, built, x, hr, hrun, hx, hlink⟩ := t.sets_at hi
  refine ⟨x, hx, fun name => ?_⟩
  have hbuilt : Forall₂ (ClassMappingDecl.Declares m a.header.path) a.classMappings built :=
    ((compiles_mapM_forall₂ fun s _ => s.build_declares hr "").ensures _ _ hrun).2
  have hmine : Forall₂ (ClassMappingDecl.Declares m a.header.path) (a.setsFor m name)
      (built.filter fun s => s.base.className.path = name) :=
    rel_filter (fun s s' h => by simp [ClassMappingDecl.isFor, h.className]) hbuilt
  have hfinal : Forall₂ (fun s s' => k.linkSet a.header.path s = .ok s')
      ((markRoots built).filter fun s => s.base.className.path = name) (x.setsFor name) :=
    rel_filter (fun s s' h => by simp [(linkSet_keeps h).2.1]) hlink
  have hroots := (rel_filter (p := fun s => s.base.root) (q := fun s => s.base.root)
    (fun s s' h => by simp [(linkSet_keeps h).2.2]) hfinal).length_eq
  have hdeclared := (rel_filter (p := fun s => s.attrs.root) (q := fun s => s.base.root)
    (fun s s' h => by simp [h.root]) hmine).length_eq
  rw [← hfinal.length_eq, ← hroots, filter_markRoots, hdeclared, hmine.length_eq]
  dsimp only
  split
  · rename_i hone
    obtain ⟨s, hs⟩ := length_eq_one_iff.1 hone
    simp [hs, SetImplementation.base_withBase]
  · exact ⟨rfl, rfl⟩

/-! ### The check -/

namespace Model

theorem checkRoots_eq (hx : m.mapping? path = some x) (span : Span) : m.checkRoots path span =
    (distinct (x.sets.map fun s => s.base.className.path)).forM fun name =>
      if (x.setsFor name).length = 1 || ((x.setsFor name).filter (·.base.root)).length = 1 then .ok ()
      else failAt span (.rootCount name (x.setsFor name).length ((x.setsFor name).filter (·.base.root)).length) := by
  have hsets : ((m.setsOf path).map fun s => s.2.base) = x.sets.map (·.base) := by
    rw [← setsOf_map_snd hx, map_map]
    rfl
  unfold checkRoots
  simp only [hsets, map_map, filter_map, length_map]
  rfl

/-- **The check passes if no class has several class mappings without one root.** -/
theorem checkRoots_eq_ok (hx : m.mapping? path = some x) (span : Span) : m.checkRoots path span = .ok () ↔
    ∀ name, (x.setsFor name).length ≤ 1 ∨ ((x.setsFor name).filter (·.base.root)).length = 1 := by
  have hmem (name : String) : name ∈ distinct (x.sets.map fun s => s.base.className.path) ↔
      (x.setsFor name).length ≠ 0 := by
    rw [mem_distinct, ne_eq, length_eq_zero_iff, Mapping.setsFor]
    simp
  rw [checkRoots_eq hx, Result.forM_eq_ok]
  constructor
  · intro h name
    by_cases hnone : (x.setsFor name).length = 0
    · exact .inl (by omega)
    · have hname := h name ((hmem name).2 hnone)
      split at hname
      · rename_i hone
        simp only [Bool.or_eq_true, decide_eq_true_eq] at hone
        exact hone.imp_left Nat.le_of_eq
      · cases hname
  · intro h name hname
    have hsome := (hmem name).1 hname
    refine if_pos ?_
    simp only [Bool.or_eq_true, decide_eq_true_eq]
    exact (h name).imp_left fun hle => by omega

def checkAllRoots (m : Model) (mappings : List MappingDecl) : Result Unit :=
  mappings.forM fun d => m.checkRoots d.header.path d.header.span

end Model

def checkBeforeRoots (mappings : List MappingDecl) : Build Unit := do
  checkIncludeCycles mappings
  (mappings.forM fun d => d.enumMappings.forM (·.checkSources) : Result Unit)
  mappings.forM fun d => Model.checkIds d.header.path d.header.span

theorem checkMappings_eq (mappings : List MappingDecl) : checkMappings mappings = (do
    checkBeforeRoots mappings
    let m ← get
    if m.options.roots then
      (m.checkAllRoots mappings : Result Unit)
    mappings.forM fun d => checkNewInstances d.header.path d.header.span) := by
  unfold checkBeforeRoots
  simp only [bind_assoc]
  rfl

theorem checkBeforeRoots_notes (mappings : List MappingDecl) : (checkBeforeRoots mappings).Notes := by
  intro m
  unfold checkBeforeRoots
  simp only [ensures_bind, ensures_liftM]
  exact fun _ _ _ _ => (made_forM fun d _ => checkIds_made _ _).notes m

/-! ### Whole builds -/

namespace Document

theorem Progress.options_eq (t : d.Progress o m) : m.options = o :=
  (t.grows (d.at_start o) (by decide) (fun _ => by decide) (by decide) : Grows (within [.profile, .classType, .enumeration,
    .function, .measure, .unit, .association, .store, .mapping, .connection, .runtime]) _ _).options

theorem Progress.checkRoots_eq_ok (t : d.Progress o m) {a : MappingDecl} (ha : a ∈ d.mappings) (span : Span) :
    m.checkRoots a.header.path span = .ok () ↔ ∀ name, (a.setsFor m name).length ≤ 1 ∨
      ((a.setsFor m name).filter (·.attrs.root)).length = 1 := by
  obtain ⟨x, hx, hcount⟩ := t.roots_at ha
  rw [Model.checkRoots_eq_ok hx]
  refine forall_congr' fun name => ?_
  obtain ⟨hlength, hroots⟩ := hcount name
  rw [hlength, hroots]
  split
  · rename_i hone
    exact iff_of_true (.inr rfl) (.inl hone.le)
  · exact Iff.rfl

theorem Trace.checkAllRoots_ok (t : d.Trace o m) (hroots : o.roots = true) : m.checkAllRoots d.mappings = .ok () := by
  have h : (checkMappings d.mappings).Ensures t.served fun _ _ => m.checkAllRoots d.mappings = .ok () := by
    rw [checkMappings_eq, ensures_bind]
    refine (checkBeforeRoots_notes d.mappings _).mono fun _ k hk => ?_
    have hbefore : t.served.Same k := .of_noted hk
    have hend : t.served.Same m := .of_noted t.noted
    have hsame : k.checkAllRoots d.mappings = m.checkAllRoots d.mappings := by
      rw [checkAllRoots, checkAllRoots, Sees.checkRoots hbefore, Sees.checkRoots hend]
    have hoptions : k.options.roots = true := by
      rw [hk.options, ← t.noted.options, t.options_eq, hroots]
    rw [ensures_bind, ensures_get]
    simp only [hoptions, if_true, hsame, ensures_bind, ensures_liftM]
    exact fun _ hok _ _ _ => hok
  obtain ⟨n, hn, -⟩ := t.checked
  exact h _ _ hn

theorem build_of_checkAllRoots (hroots : o.roots = true) {n k : Model} {f : Failure}
    (hruns : Runs (d.uncheckedPasses o) { options := o } n) (hbefore : checkBeforeRoots d.mappings n = .ok ((), k))
    (hk : k.options = o) (hf : k.checkAllRoots d.mappings = .error f) : (d.build o).result = .error f := by
  have hrun : checkMappings d.mappings n = .error f := by
    rw [checkMappings_eq, bind_run, hbefore]
    show (if k.options.roots then _ else _ : Build Unit) k = _
    rw [hk, hroots, if_pos rfl, hf]
    rfl
  rw [build, passes_eq_unchecked]
  exact runPasses_error hrun _ _ hruns

/-- **Each class that is mapped has one root.** In a model that was built with the check of roots, take
a mapping and a class that has class mappings of its own there: one of them is a root, and no other.
When the check is reached, it fails if and only if a mapping declares several class mappings for a class,
and not one of them as root. The failure ends the build, and tells how many of both there are. -/
theorem one_root_per_class (hroots : o.roots = true) :
    (∀ m, (d.build o).result = .ok m → ∀ path x, m.mapping? path = some x → ∀ s ∈ x.sets,
      ((x.setsFor s.base.className.path).filter (·.base.root)).length = 1) ∧
    ∀ n k, Runs (d.uncheckedPasses o) { options := o } n → checkBeforeRoots d.mappings n = .ok ((), k) →
      ((∃ f, k.checkAllRoots d.mappings = .error f) ↔ ∃ a ∈ d.mappings, ∃ name,
        2 ≤ (a.setsFor k name).length ∧ ((a.setsFor k name).filter (·.attrs.root)).length ≠ 1) ∧
      ∀ f, k.checkAllRoots d.mappings = .error f → (d.build o).result = .error f ∧
        ∃ a ∈ d.mappings, ∃ name, f = .of a.header.span (.rootCount name (a.setsFor k name).length
          ((a.setsFor k name).filter (·.attrs.root)).length) := by
  refine ⟨fun m hm path x hx s hs => ?_, fun n k hruns hbefore => ?_⟩
  · obtain ⟨t⟩ := exists_trace hm
    obtain ⟨a, ha, rfl⟩ := mem_map.1 (t.mapping?_isSome.1 (has_mapping.2 ⟨x, hx⟩))
    obtain ⟨y, hy, hcount⟩ := t.roots_at ha
    cases hx.symm.trans hy
    have hcheck := Result.forM_eq_ok.1 (t.checkAllRoots_ok hroots) a ha
    rcases (Model.checkRoots_eq_ok hx _).1 hcheck s.base.className.path with hle | hone
    · have hmem : s ∈ x.setsFor s.base.className.path := mem_filter.2 ⟨hs, by simp⟩
      have hpos := length_pos_of_mem hmem
      obtain ⟨hlength, hone⟩ := hcount s.base.className.path
      rw [hone, if_pos (by omega)]
    · exact hone
  · have hnoted := checkBeforeRoots_notes d.mappings _ _ _ hbefore
    obtain ⟨t, -⟩ := exists_progress hruns hnoted
    have hok : k.checkAllRoots d.mappings = .ok () ↔ ∀ a ∈ d.mappings, ∀ name,
        (a.setsFor k name).length ≤ 1 ∨ ((a.setsFor k name).filter (·.attrs.root)).length = 1 := by
      rw [checkAllRoots, Result.forM_eq_ok]
      exact forall₂_congr fun a ha => t.checkRoots_eq_ok ha _
    refine ⟨?_, fun f hf => ⟨build_of_checkAllRoots hroots hruns hbefore t.options_eq hf, ?_⟩⟩
    · have hfails : (∃ f, k.checkAllRoots d.mappings = .error f) ↔ ¬ k.checkAllRoots d.mappings = .ok () := by
        rcases k.checkAllRoots d.mappings with f | ⟨⟩ <;> simp
      rw [hfails, hok]
      simp only [not_forall, not_or, Nat.not_le, exists_prop]
      exact Iff.rfl
    · revert f
      show Result.Throws _ (k.checkAllRoots d.mappings)
      refine Result.throws_forM fun a ha => ?_
      obtain ⟨x, hx, hcount⟩ := t.roots_at ha
      rw [checkRoots_eq hx]
      refine Result.throws_forM fun name _ => ?_
      obtain ⟨hlength, hone⟩ := hcount name
      split
      · exact Result.throws_ok _
      · rename_i hnot
        simp only [Bool.or_eq_true, decide_eq_true_eq, not_or] at hnot
        rw [hone, hlength, if_neg (hlength ▸ hnot.1)]
        exact Result.throws_failAt ⟨a, ha, name, rfl⟩

/-- Two classes, of which one has two class mappings: one is declared a root, the other is or is not. -/
def twiceMapped (root : Bool) : Document :=
  { classes := [{ header := { package := "m", name := "A" } }, { header := { package := "m", name := "B" } }]
    mappings :=
      [{ header := { package := "m", name := "M" }
         classMappings :=
           [.mk { tag := "pureInstance", className := "m::A", id := "a", root := true } none [],
            .mk { tag := "operation", className := "m::A", id := "u", operation := "STORE_UNION"
                  parameters := ["a"], root } none [],
            .mk { tag := "pureInstance", className := "m::B" } none []] }] }

/-- The only class mapping of a class becomes a root, and two roots of a class are too many. -/
theorem twiceMapped_roots :
    (∃ m x, ((twiceMapped false).build {}).result = .ok m ∧ m.mapping? "m::M" = some x ∧
      x.sets.map (·.base.root) = [true, false, true] ∧
      ∀ s ∈ x.sets, ((x.setsFor s.base.className.path).filter (·.base.root)).length = 1) ∧
    ∃ f, ((twiceMapped true).build {}).result = .error f := by
  constructor
  · obtain ⟨m, hok, x, hx, hflags⟩ : ∃ m, ((twiceMapped false).build {}).result = .ok m ∧
        ∃ x, m.mapping? "m::M" = some x ∧ x.sets.map (·.base.root) = [true, false, true] := by decide +kernel
    exact ⟨m, x, hok, hx, hflags, (one_root_per_class rfl).1 m hok _ x hx⟩
  · obtain ⟨n, hn, ⟨⟨⟩, k⟩, hbefore, a, ha, hcount⟩ : ∃ n,
        (runPasses ((twiceMapped true).uncheckedPasses {}) {}).result = .ok n ∧
        ∃ k, checkBeforeRoots (twiceMapped true).mappings n = .ok k ∧ ∃ a ∈ (twiceMapped true).mappings,
          2 ≤ (a.setsFor k.2 "m::A").length ∧ ((a.setsFor k.2 "m::A").filter (·.attrs.root)).length ≠ 1 := by
      decide +kernel
    obtain ⟨hiff, hfails⟩ := (one_root_per_class (d := twiceMapped true) (o := {}) rfl).2 n k
      ((runPasses_result _ _).1 hn) hbefore
    obtain ⟨f, hf⟩ := hiff.2 ⟨a, ha, "m::A", hcount⟩
    exact ⟨f, (hfails f hf).1⟩

end Document
end ModelGraph
