/-
# Passes pair declarations with elements

Each pass over a document finds the elements that an earlier pass has added for the same
declarations, at a stage that it can move them on from. A derived property is compiled into
the one that was built from the same declaration, wherever it stands by then. At the end of
a build all bodies are compiled.

Key definitions: `Document.Adds`, `Document.Paired`.
Key theorems: `Document.exists_refused`, `Document.At.found`, `Document.passes_pair`.
-/
import ModelGraph.Proofs.Build.Tracing

namespace ModelGraph

open Model Build Document List Pass QualifiedProperty

variable {α : Type} {j : Nat} {p : String} {y : Header × Option Category} {x : ElementContent}

variable {d : Document} {o : Options} {done after : List (String × Step)} {pass first : String} {s : Step}
  {m m' n : Model} {i : Nat} {f : Failure}

/-! ### Failures of passes are those of steps -/

/-- Steps in a row fail in one of them, and the failure is told as it is or from an element. -/
def Refused (steps : List Step) (m : Model) (f : Failure) : Prop :=
  ∃ i s n f₀, steps[i]? = some s ∧ (steps.take i).forM Step.run m = .ok ((), n) ∧ s.run n = .error f₀ ∧
    (f = f₀ ∨ ∃ path span, f = f₀.anchor path span)

theorem refused_of_forM {steps : List Step} (h : steps.forM Step.run m = .error f) : Refused steps m f := by
  obtain ⟨i, s, n, hs, hbefore, hfail⟩ := exists_of_forM h
  exact ⟨i, s, n, f, hs, hbefore, hfail, .inl rfl⟩

theorem Pass.each_refused {name : String} {header : α → Header} {step : α → Build Unit} {decls : List α}
    (keys : α → List (Header × Option Category)) (h : (Pass.each name decls header step).run m = .error f) :
    Refused (decls.map fun x => { keys := keys x, run := step x }) m f := by
  obtain ⟨i, x, n, hx, hbefore, hfail⟩ := exists_of_forM h
  have hpass : (Pass.each name (decls.take i) header step).run m = .ok ((), n) := hbefore
  rcases hstep : step x n with f₀ | ⟨⟨⟩, n'⟩ <;> rw [hstep] at hfail
  · cases hfail
    refine ⟨i, { keys := keys x, run := step x }, n, f₀, ?_, ?_, hstep, .inr ⟨_, _, rfl⟩⟩
    · rw [getElem?_map, hx]
      rfl
    · rw [← map_take]
      exact (each_eq_ok keys).1 hpass
  · cases hfail

/-- **A pass fails in one of its steps.** -/
theorem Document.refused_of_run {p : Pass} (hp : p ∈ d.passes o) (h : p.run m = .error f) :
    Refused (d.steps p.name) m f := by
  have hsingle (keys : List (Header × Option Category)) {run : Build Unit} (h : run m = .error f) :
      Refused [{ keys, run }] m f := by
    exact ⟨0, _, m, f, rfl, rfl, h, .inl rfl⟩
  simp only [passes, domainPasses, mappingPasses, mem_append, mem_cons, not_mem_nil,
    or_false] at hp
  rcases hp with ((hp | hp) | hp) | hp
  · rcases hp with rfl | rfl | rfl | rfl | rfl | rfl | rfl
    · exact refused_of_forM ((congrFun (forM_steps _ d.sections) m).trans h)
    all_goals exact each_refused _ h
  · split at hp
    · rw [mem_singleton.1 hp] at h ⊢
      exact hsingle _ h
    · cases hp
  · rcases hp with rfl | rfl | rfl | rfl | rfl | rfl | rfl
    all_goals exact each_refused _ h
  · rcases hp with rfl | rfl | rfl | rfl | rfl | rfl | rfl | rfl | rfl | rfl | hp
    all_goals try exact each_refused _ h
    rcases hp with rfl | rfl
    all_goals exact hsingle _ h

/-- **A build that fails has come to a step that fails.** -/
theorem Document.exists_refused (h : (d.build o).result = .error f) : ∃ pass i s n f₀, d.At o pass i n ∧
    (d.steps pass)[i]? = some s ∧ s.run n = .error f₀ ∧ (f = f₀ ∨ ∃ path span, f = f₀.anchor path span) := by
  obtain ⟨pre, p, post, m, hps, hruns, hfail⟩ := exists_failed _ _ h
  have hp : p ∈ d.passes o := hps ▸ mem_append_right _ (.head _)
  obtain ⟨i, s, n, f₀, hs, hbefore, hstep, hf⟩ := refused_of_run hp hfail
  exact ⟨p.name, i, s, n, f₀, ⟨pre, p, post, m, hps, rfl, hruns, hbefore⟩, hs, hstep, hf⟩

/-! ### What passes find -/

/-- Step `i` of a pass has added the element at place `l`, for one of its keys. -/
def Document.Adds (d : Document) (o : Options) (pass : String) (i : Nat) (y : Header × Option Category)
    (l : Nat) : Prop :=
  ∃ s n n' e, (d.steps pass)[i]? = some s ∧ y ∈ s.keys ∧ d.At o pass i n ∧ s.run n = .ok ((), n') ∧
    n.elements.length ≤ l ∧ n'.elements[l]? = some e ∧ e.label = y.1.label ∧ e.category? = y.2

theorem Document.exists_before {s₀ : Step} (h : d.script (d.passes o) = done ++ (pass, s) :: after)
    (hfirst : declaring pass = some first) (hs₀ : (d.steps first)[j]? = some s₀) :
    ∃ done₀ mid, done = done₀ ++ (first, s₀) :: mid ∧
      ∀ n₀, play done₀ { options := o } = .ok ((), n₀) → d.At o first j n₀ := by
  obtain ⟨pre, p, post, before, rest, hps, hname, -, rfl⟩ := exists_pass h
  obtain ⟨q, hq, rfl⟩ := exists_declaring hps hname hfirst
  obtain ⟨pre₀, pre₁, rfl⟩ := append_of_mem hq
  have hps₀ : d.passes o = pre₀ ++ q :: (pre₁ ++ p :: post) := by rw [hps, append_assoc, cons_append]
  rw [script_split rfl hs₀]
  refine ⟨_, _, append_assoc .., fun n₀ hn₀ => ?_⟩
  obtain ⟨m, hm⟩ := (at_iff_play hps₀).2 hn₀
  exact ⟨pre₀, q, _, m, hps₀, rfl, hm⟩

theorem Document.exists_element {mid : List (String × Step)} {n₀ : Model}
    (hscript : d.script (d.passes o) = (done ++ (first, s) :: mid) ++ after) (hfirst : declaring first = none)
    (hn₀ : play done { options := o } = .ok ((), n₀))
    (hn : play (done ++ (first, s) :: mid) { options := o } = .ok ((), n)) (hj : s.keys[j]? = some y) :
    ∃ e, n.elements[n₀.elements.length + j]? = some e ∧ e.label = y.1.label ∧ e.category? = y.2 := by
  have hbefore := elements_of_play (hscript.trans (append_assoc ..)) hn₀
  have hall := elements_of_play hscript hn
  have hlength : n₀.elements.length = (done.flatMap taken).length := by
    simpa using congrArg List.length hbefore
  have htaken : taken (first, s) = s.keys := by rw [taken, hfirst]
  have hplace := congrArg (·[n₀.elements.length + j]?) hall
  have hlt : j < s.keys.length := (List.getElem?_eq_some_iff.1 hj).1
  simp only [getElem?_map, flatMap_append, flatMap_cons, htaken] at hplace
  rw [hlength, getElem?_append_right (Nat.le_add_right _ _), Nat.add_sub_cancel_left,
    getElem?_append_left hlt, hj] at hplace
  obtain ⟨e, he, heq⟩ := Option.map_eq_some_iff.1 hplace
  rw [Prod.mk.injEq] at heq
  exact ⟨e, hlength ▸ he, heq⟩

/-- **What a later step looks up is the element that the declaring pass has added for it.** -/
theorem Document.At.found (h : d.At o pass i n) (hs : (d.steps pass)[i]? = some s) (hfirst : declaring pass = some first) (hy : y ∈ s.keys) :
    ∃ j l e, d.Adds o first j y l ∧ (pass ∉ wholePasses → j = i) ∧ n.elements[l]? = some e ∧
      n.declared? y.1.path = some e ∧ e.label = y.1.label ∧ e.category? = y.2 := by
  obtain ⟨done, after, hscript, hplay⟩ := h.reached hs
  obtain ⟨j, s₀, hs₀, hy₀, hj⟩ := exists_step hfirst hs hy
  obtain ⟨done₀, mid, rfl, hat⟩ := exists_before hscript hfirst hs₀
  obtain ⟨n₀, hn₀, hrest⟩ := play_append.1 hplay
  obtain ⟨n₁, hn₁, -⟩ := play_cons.1 hrest
  obtain ⟨k, hk⟩ := getElem?_of_mem hy₀
  have hdeclares := declaring_first hfirst
  -- The element is there right after the step that adds it, and stays where it is.
  have hsplit : d.script (d.passes o) = (done₀ ++ [(first, s₀)]) ++ (mid ++ (pass, s) :: after) := by
    rw [hscript, append_assoc, append_assoc, singleton_append, cons_append]
  obtain ⟨e₁, he₁, hlabel₁, hcategory₁⟩ := exists_element hsplit hdeclares hn₀
    (play_append.2 ⟨n₀, hn₀, play_single.2 hn₁⟩) hk
  obtain ⟨e, he, hlabel, hcategory⟩ := exists_element hscript hdeclares hn₀ hplay hk
  have hpath : e.path = y.1.path := congrArg Prod.snd hlabel
  refine ⟨j, n₀.elements.length + k, e, ⟨s₀, n₀, n₁, e₁, hs₀, hy₀, hat n₀ hn₀, hn₁, Nat.le_add_right _ _, he₁, hlabel₁,
    hcategory₁⟩, hj, he, ?_, hlabel, hcategory⟩
  rw [← hpath]
  exact (enrolled_of_play hscript hplay).tidy.distinct.declared? (mem_of_getElem? he)

/-! ### Stages -/

/-- **Where a later step is to move an element on to a stage, the element can move there.** -/
theorem Document.At.ahead (h : d.At o pass i n) (hs : (d.steps pass)[i]? = some s) (hfirst : declaring pass = some first)
    {k : Header × Option Category} (hk : k ∈ s.keys) (hx : n.staged? k.1.path = some x)
    {target : Stage} (ht : (pass, target) ∈ x.track) :
    ∃ stage, x.stage? = some stage ∧ stage.advance target = .ok target := by
  obtain ⟨done, after, hscript, hplay⟩ := h.reached hs
  obtain ⟨-, -, -, hstaged⟩ := staged?_eq_some.1 hx
  obtain ⟨stage, hstage⟩ := Option.isSome_iff_exists.1 hstaged
  exact ⟨stage, hstage, Stage.advance_eq ((ledger_of_play hscript hplay).ahead hscript hplay hk hfirst hx ht hstage)⟩

theorem Document.play_of_build (h : (d.build o).result = .ok m) :
    play (d.script (d.passes o)) { options := o } = .ok ((), m) :=
  (runs_iff_play (List.Subset.refl _)).1 ((runPasses_result _ _).1 h)

theorem Document.mem_script (hpass : ∀ b, pass ∈ passNames b) (hs : s ∈ d.steps pass) :
    (pass, s) ∈ d.script (d.passes o) := by
  have hmem : pass ∈ (d.passes o).map (·.name) := passes_names d o ▸ hpass o.cycles
  obtain ⟨q, hq, rfl⟩ := mem_map.1 hmem
  exact mem_flatMap.2 ⟨q, hq, mem_map_of_mem hs⟩

theorem Document.made_last {last : String} (hlast : ∀ b, last ∈ passNames b) (hfirst : declaring last = some first)
    (h : made (d.script (d.passes o)) first p = true) : made (d.script (d.passes o)) last p = true := by
  obtain ⟨s, hs, k, hk, rfl⟩ := made_eq_true.1 h
  have hmem : k ∈ (d.steps last).flatMap Step.keys := by
    rw [keys_eq hfirst]
    exact mem_flatMap.2 ⟨s, mem_steps hs, hk⟩
  obtain ⟨t, ht, hkt⟩ := mem_flatMap.1 hmem
  exact made_eq_true.2 ⟨t, mem_script hlast ht, k, hkt, rfl⟩

section

variable (h : (d.build o).result = .ok m)
include h

/-- **At the end of a build all classes, associations and functions are compiled.** -/
theorem Document.stage_of_build (hx : m.staged? p = some x) : x.stage? = some .compiled := by
  have hplay := play_of_build h
  have hl := ledger_of_play (append_nil _).symm hplay
  rw [hl.stages hx]
  have hdeclared := hl.declared hx
  cases x with
  | classType c =>
    exact congrArg some (stageAfter_moved [] (forall_mem_nil _) (made_last (by decide) rfl hdeclared))
  | association a =>
    exact congrArg some (stageAfter_moved [] (forall_mem_nil _) (made_last (by decide) rfl hdeclared))
  | function f =>
    exact congrArg some (stageAfter_moved [] (forall_mem_nil _) (made_last (by decide) rfl hdeclared))
  | _ => cases hdeclared

theorem Document.kinds_of_build (hpass : ∀ b, first ∈ passNames b)
    (hfirst : declaring first = none) (hs : s ∈ d.steps first) : ∀ y ∈ s.keys, m.HasKind y.1.path y.2 := by
  intro y hy
  have henrolled := enrolled_of_play (append_nil _).symm (play_of_build h)
  refine henrolled.kinds y (mem_flatMap.2 ⟨(first, s), mem_script hpass hs, ?_⟩)
  rw [taken, hfirst]
  exact hy

theorem Document.class_of_build {x : ClassDecl} (hx : x ∈ d.classes) :
    ∃ c, m.staged? x.header.path = some (.classType c) ∧ c.stage = .compiled := by
  have hs : ⟨[(x.header, some .classType)], x.declare⟩ ∈ d.steps "classes.declare" := mem_map_of_mem hx
  obtain ⟨c, hc⟩ := Has.staged_class (kinds_of_build h (by decide) rfl hs _ (.head _))
  exact ⟨c, hc, Option.some.inj (stage_of_build h hc)⟩

theorem Document.association_of_build {x : AssociationDecl} (hx : x ∈ d.associations) :
    ∃ a, m.staged? x.header.path = some (.association a) ∧ a.stage = .compiled := by
  have hs : ⟨[(x.header, some .association)], x.declare⟩ ∈ d.steps "associations.declare" := mem_map_of_mem hx
  obtain ⟨a, ha⟩ := Has.staged_association (kinds_of_build h (by decide) rfl hs _ (.head _))
  exact ⟨a, ha, Option.some.inj (stage_of_build h ha)⟩

theorem Document.function_of_build {x : FunctionDecl} (hx : x ∈ d.functions) :
    ∃ f, m.staged? x.elementPath = some (.function f) ∧ f.stage = .compiled := by
  have hs : ⟨[(x.elementHeader, some .function)], x.declare⟩ ∈ d.steps "functions.declare" := mem_map_of_mem hx
  have hmade := made_eq_true.2 ⟨_, mem_script (o := o) (by decide) hs, _, mem_cons_self, rfl⟩
  obtain ⟨f, hf⟩ := (ledger_of_play (append_nil _).symm (play_of_build h)).functions hmade
  exact ⟨f, hf, Option.some.inj (stage_of_build h hf)⟩

end

/-! ### Bodies of derived properties -/

/-- **A derived property of a class is compiled at the place where it was built.** -/
theorem Document.At.class_bodies {x : ClassDecl} (h : d.At o "classes.bodies" i n) (hx : d.classes[i]? = some x) :
    ∃ c qs, n.staged? x.header.path = some (.classType c) ∧ d.ClassSigned o i x qs ∧ Generates qs c.qualified ∧
      (x.qualified.zipIdx.forM fun y => x.compileQualified y.1 y.2) n =
        ((x.qualified.zip qs).zipIdx.forM fun y => x.compileAt y.1.1 y.1.2 y.2) n := by
  have hs : (d.steps "classes.bodies")[i]? = some ⟨[(x.header, some .classType)], x.compileStep⟩ := by
    show (d.classes.map _)[i]? = _
    rw [getElem?_map, hx]
    rfl
  obtain ⟨done, after, hscript, hplay⟩ := h.reached hs
  obtain ⟨c, hc⟩ := Has.staged_class ((enrolled_of_play hscript hplay).keys hscript rfl _ (.head _))
  have hstage := (ledger_of_play hscript hplay).class_milestoned hplay (.head _) hscript hc
  obtain ⟨j, x', qs, hpath, hsigned, hg⟩ := (traced_of_play hscript hplay).classes hc (.inr hstage)
  obtain ⟨rfl, rfl⟩ := h.place_eq rfl rfl hx hsigned.1 hpath
  obtain ⟨-, n₀, -, hn₀⟩ := id hsigned
  exact ⟨c, qs, hc, hsigned, hg, ClassDecl.compileQualifieds_eq hc hn₀ hg⟩

def ElementContent.Bodied : ElementContent → Prop
  | .classType c => ∀ q ∈ c.qualified, q.ordinal.isSome = true → q.body ≠ []
  | .function f => f.body ≠ []
  | _ => True

theorem filter_eq_singleton {l : List α} {t : α → Bool} {y : α} (hy : l[j]? = some y)
    (ht : ∀ k z, l[k]? = some z → (t z = true ↔ k = j)) : l.filter t = [y] := by
  obtain ⟨hj, rfl⟩ := List.getElem?_eq_some_iff.1 hy
  have hbefore : (l.take j).filter t = [] := by
    refine filter_eq_nil_iff.2 fun z hz htz => ?_
    obtain ⟨k, hk⟩ := getElem?_of_mem hz
    rw [getElem?_take, Option.ite_none_right_eq_some] at hk
    exact absurd ((ht k z hk.2).1 htz) (Nat.ne_of_lt hk.1)
  have hbehind : (l.drop (j + 1)).filter t = [] := by
    refine filter_eq_nil_iff.2 fun z hz htz => ?_
    obtain ⟨k, hk⟩ := getElem?_of_mem hz
    rw [getElem?_drop] at hk
    exact absurd ((ht _ z hk).1 htz) (by omega)
  have hsplit : l = l.take j ++ l[j] :: l.drop (j + 1) := by
    rw [← drop_eq_getElem_cons hj, take_append_drop]
  nth_rewrite 1 [hsplit]
  rw [filter_append, hbefore, filter_cons_of_pos ((ht j _ hy).2 rfl), hbehind]
  rfl

/-- Of the derived properties of an association, a class has got the one of a number if it is
navigated from the class. -/
theorem handed_filter {owner : String} {ts : List TypeRef} {qs : List QualifiedProperty} {t : TypeRef}
    {q : QualifiedProperty} (his : ∀ (k : Nat) (r : QualifiedProperty), qs[k]? = some r → r.Is owner k = true)
    (ht : ts[j]? = some t) (hq : qs[j]? = some q) :
    (handed (ts.zip qs) p).filter (·.Is owner j) = if t.path = p then [q] else [] := by
  have hone : ((ts.zip qs).filter fun y => y.2.Is owner j) = [(t, q)] := by
    refine filter_eq_singleton (getElem?_zip_eq_some.2 ⟨ht, hq⟩) fun k z hz => ?_
    have hk := is_iff.1 (his k _ (getElem?_zip_eq_some.1 hz).2)
    rw [is_iff, hk.1, hk.2]
    simp
  unfold handed
  rw [filter_map, filter_comm]
  show ((((ts.zip qs).filter fun y => y.2.Is owner j).filter _).map _) = _
  rw [hone]
  by_cases hp : t.path = p
  · simp [hp]
  · simp [hp]

/-- **A derived property of an association is compiled into the one that was built from its
declaration.** It is the only one of its number that the association and its class have. -/
theorem Document.At.association_bodies {x : AssociationDecl} (h : d.At o "associations.bodies" i n)
    (hx : d.associations[i]? = some x) :
    ∃ a, n.staged? x.header.path = some (.association a) ∧ d.AssociationSigned o i x a.receivers a.signatures ∧
      (∀ j t q, a.receivers[j]? = some t → a.signatures[j]? = some q →
        (∀ r ∈ a.qualified, r.Is x.header.path j = true → r = q) ∧
        ∀ p c, n.staged? p = some (.classType c) →
          c.assocQualified.filter (·.Is x.header.path j) = if t.path = p then [q] else []) ∧
      ((x.qualified.zip a.receivers).zipIdx.forM fun y => x.compileQualified y.1.1 y.1.2 y.2) n =
        (((x.qualified.zip a.receivers).zip a.signatures).zipIdx.forM fun y =>
          x.compileAs y.1.1.1 y.1.1.2 y.1.2 y.2) n := by
  have hs : (d.steps "associations.bodies")[i]? = some ⟨[(x.header, some .association)], x.compileStep⟩ := by
    show (d.associations.map _)[i]? = _
    rw [getElem?_map, hx]
    rfl
  obtain ⟨done, after, hscript, hplay⟩ := h.reached hs
  obtain ⟨a, ha⟩ := Has.staged_association ((enrolled_of_play hscript hplay).keys hscript rfl _ (.head _))
  have htraced := traced_of_play hscript hplay
  have hopen : a.stage ≠ .compiled := fun hstage => absurd ((ledger_of_play hscript hplay).ahead hscript hplay
    (.head _) rfl ha (.head _) (congrArg some hstage)) (Int.lt_irrefl _)
  obtain ⟨⟨j, x', hpath, hsigned⟩, hheld⟩ := htraced.associations ha hopen
  obtain ⟨rfl, rfl⟩ := h.place_eq rfl rfl hx hsigned.1 hpath
  obtain ⟨-, n₀, n₁, -, -, hn₁⟩ := id hsigned
  refine ⟨a, ha, hsigned, fun k t q ht hq => ⟨fun r hr hk => ?_, fun p c hc => ?_⟩,
    AssociationDecl.compileQualifieds_eq ha hn₁⟩
  · obtain ⟨k', hk'⟩ := getElem?_of_mem (hheld r hr k hk)
    have hkk := (is_iff.1 (hn₁.is hk')).2.symm.trans (is_iff.1 hk).2
    cases hkk
    exact Option.some.inj (hk'.symm.trans hq)
  · exact (htraced.shared hc ha hopen k).trans (handed_filter (fun _ _ hr => hn₁.is hr) ht hq)

/-! ### Pairing -/

/-- What holds in every build of a document. -/
structure Document.Paired (d : Document) (o : Options) : Prop where
  /-- A build that fails does so in a step that it has come to. -/
  refused : ∀ {f}, (d.build o).result = .error f → ∃ pass i s n f₀, d.At o pass i n ∧
    (d.steps pass)[i]? = some s ∧ s.run n = .error f₀ ∧ (f = f₀ ∨ ∃ path span, f = f₀.anchor path span)
  /-- No step fails for a stage, nor with any other plain problem. -/
  told : ∀ {pass i s n f}, d.At o pass i n → (d.steps pass)[i]? = some s → s.run n = .error f → f.Told
  /-- A later step finds the element that it is to move on at a stage from which it can. -/
  ahead : ∀ {pass first i s n}, d.At o pass i n → (d.steps pass)[i]? = some s → declaring pass = some first →
    ∀ y ∈ s.keys, ∀ x, n.staged? y.1.path = some x → ∀ target, (pass, target) ∈ x.track →
      ∃ stage, x.stage? = some stage ∧ stage.advance target = .ok target
  /-- What a later step looks up is the element that the declaring pass has added for the same
  declaration, of its kind. -/
  found : ∀ {pass first i s n}, d.At o pass i n → (d.steps pass)[i]? = some s → declaring pass = some first →
    ∀ y ∈ s.keys, ∃ j l e, d.Adds o first j y l ∧ (pass ∉ wholePasses → j = i) ∧ n.elements[l]? = some e ∧
      n.declared? y.1.path = some e ∧ e.label = y.1.label ∧ e.category? = y.2
  /-- A derived property of a class is compiled at the place where it was built from the same
  declaration; behind it stand only generated ones. -/
  classBodies : ∀ {i n x}, d.At o "classes.bodies" i n → d.classes[i]? = some x →
    ∃ c qs, n.staged? x.header.path = some (.classType c) ∧ d.ClassSigned o i x qs ∧ Generates qs c.qualified ∧
      (x.qualified.zipIdx.forM fun y => x.compileQualified y.1 y.2) n =
        ((x.qualified.zip qs).zipIdx.forM fun y => x.compileAt y.1.1 y.1.2 y.2) n
  /-- A derived property of an association is compiled into the one that was built from the same
  declaration, which is the only one of its number in the association and in the class that it is
  navigated from. -/
  associationBodies : ∀ {i n x}, d.At o "associations.bodies" i n → d.associations[i]? = some x →
    ∃ a, n.staged? x.header.path = some (.association a) ∧ d.AssociationSigned o i x a.receivers a.signatures ∧
      (∀ j t q, a.receivers[j]? = some t → a.signatures[j]? = some q →
        (∀ r ∈ a.qualified, r.Is x.header.path j = true → r = q) ∧
        ∀ p c, n.staged? p = some (.classType c) →
          c.assocQualified.filter (·.Is x.header.path j) = if t.path = p then [q] else []) ∧
      ((x.qualified.zip a.receivers).zipIdx.forM fun y => x.compileQualified y.1.1 y.1.2 y.2) n =
        (((x.qualified.zip a.receivers).zip a.signatures).zipIdx.forM fun y =>
          x.compileAs y.1.1.1 y.1.1.2 y.1.2 y.2) n
  /-- At the end of a build that succeeds all is compiled. -/
  compiled : ∀ {m}, (d.build o).result = .ok m →
    (∀ x ∈ d.classes, ∃ c, m.staged? x.header.path = some (.classType c) ∧ c.stage = .compiled) ∧
    (∀ x ∈ d.associations, ∃ a, m.staged? x.header.path = some (.association a) ∧ a.stage = .compiled) ∧
    ∀ x ∈ d.functions, ∃ f, m.staged? x.elementPath = some (.function f) ∧ f.stage = .compiled

/-- **In every build, passes pair declarations with elements.** -/
theorem Document.passes_pair (d : Document) (o : Options) : d.Paired o where
  refused := exists_refused
  told h hs hf := by
    obtain ⟨done, after, hscript, hplay⟩ := h.reached hs
    exact step_told hscript hplay _ hf
  ahead h hs hfirst y hy x hx target ht := h.ahead hs hfirst hy hx ht
  found h hs hfirst y hy := h.found hs hfirst hy
  classBodies h hx := h.class_bodies hx
  associationBodies h hx := h.association_bodies hx
  compiled h := ⟨fun _ hx => class_of_build h hx, fun _ hx => association_of_build h hx,
    fun _ hx => function_of_build h hx⟩

/-- A class with a derived property and a property of a dated class. -/
def Document.dated : Document :=
  { classes :=
      [{ header := { package := "m", name := "A" }
         properties := [{ name := "b", typeName := "m::B", bounds := { lower := 1, upper := some 1 } }]
         qualified := [{ name := "self", returnName := "m::A", bounds := { lower := 1, upper := some 1 }
                         body := [Node.reference "this"] }] },
       { header := { package := "m", name := "B" }
         annotations := { stereotypes := [{ profile := Temporal.profile, value := "businesstemporal" }] } }] }

/-- The declared derived property has its body, in front of two that were generated. -/
theorem Document.dated_compiled : ∃ m c, (dated.build {}).result = .ok m ∧
    m.staged? "m::A" = some (.classType c) ∧ c.stage = .compiled ∧
    c.qualified.map (fun q => (q.ordinal, q.body.length)) = [(some 0, 1), (none, 1), (none, 1)] := by
  obtain ⟨m, h, c', hc', htest⟩ : ∃ m, (dated.build {}).result = .ok m ∧ ∃ c, m.class? "m::A" = some c ∧
      c.qualified.map (fun q => (q.ordinal, q.body.length)) = [(some 0, 1), (none, 1), (none, 1)] := by
    decide +kernel
  obtain ⟨c, hc, hstage⟩ := ((passes_pair dated {}).compiled h).1 _ (.head _)
  obtain rfl := Option.some.inj ((class?_of_staged? hc).symm.trans hc')
  exact ⟨m, c, h, hc, hstage, htest⟩

end ModelGraph
