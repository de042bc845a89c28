/-
# What is compiled on behalf of an element

Steps that compile take notes only (`Build.Notes`), so what they give is sound in the
model in which they started. `x.Compiles m P` says so of a step that is run in `m` or in
a model that differs from it by notes: `P`, which may speak of `m`, holds of what it
gives.

Key definitions: `Build.Compiles`.
Key theorems: `ConstraintDecl.compile_compiles`, `FunctionTestDecl.compile_compiles`,
`DatedProperty.compile_compiles`.
-/
import ModelGraph.Proofs.Model.Checked

namespace ModelGraph

open Model Option Expression List Context

namespace Model

variable {m n : Model} {e : Expr} {node : Node} {scope : Scope} {typed : List Typed}

section

variable (h : m.Noted n)
include h

theorem Noted.symm : n.Noted m :=
  ⟨h.elements.symm, h.packages.symm, h.options.symm, h.imports.symm⟩

theorem Noted.isSubType : n.isSubType = m.isSubType := by
  obtain ⟨options', packages', elements', imports', warnings'⟩ := n
  cases h.elements
  rfl

theorem Noted.admits {t : Typed} (he : m.Admits t e) : n.Admits t e := by
  unfold Admits at he ⊢
  rwa [h.isSubType]

theorem Noted.allows (he : n.Allows e) : m.Allows e := by
  unfold Allows Takes Admits at he ⊢
  rwa [h.elements, h.isSubType] at he

theorem Noted.sound (he : n.Sound e) : m.Sound e := fun x hx => h.allows (he x hx)

theorem Noted.soundDates {dates : Option (Dates Expr)} (hd : n.SoundDates dates) :
    m.SoundDates dates := fun d hd' x hx => h.sound (hd d hd' x hx)

theorem Noted.soundScope (hs : n.SoundScope scope) : m.SoundScope scope :=
  fun b hb => h.soundDates (hs b hb)

end

end Model

namespace Build

variable {α β : Type} {m : Model} {P : α → Prop} {Q : β → Prop}

/-- The step takes notes only, from `m` on, and gives something that satisfies `P`. -/
def Compiles (x : Build α) (m : Model) (P : α → Prop) : Prop :=
  ∀ n, m.Noted n → x.Ensures n fun a n' => m.Noted n' ∧ P a

theorem Compiles.ensures {x : Build α} (h : x.Compiles m P) : x.Ensures m fun a n => m.Noted n ∧ P a :=
  h m (.refl m)

theorem Compiles.mono {R : α → Prop} {x : Build α} (h : x.Compiles m P) (hr : ∀ a, P a → R a) :
    x.Compiles m R := fun n hn => (h n hn).mono fun a _ ha => ⟨ha.1, hr a ha.2⟩

theorem Compiles.bind {x : Build α} {f : α → Build β} (hx : x.Compiles m P)
    (hf : ∀ a, P a → (f a).Compiles m Q) : (x >>= f).Compiles m Q := fun n hn =>
  ensures_bind.2 ((hx n hn).mono fun a n' ha => hf a ha.2 n' ha.1)

theorem Notes.compiles {x : Build α} (h : x.Notes) : x.Compiles m fun _ => True :=
  fun n hn => (h n).mono fun _ _ hn' => ⟨hn.trans hn', trivial⟩

theorem compiles_pure {a : α} (ha : P a) : (pure a : Build α).Compiles m P := fun _ hn =>
  ensures_pure.2 ⟨hn, ha⟩

theorem compiles_get : (get : Build Model).Compiles m m.Noted := fun _ hn => ensures_get.2 ⟨hn, hn⟩

theorem compiles_context {path : String} : (context path).Compiles m fun c =>
    ∃ n, m.Noted n ∧ c = Context.of n path := fun n hn => ensures_context.2 ⟨hn, n, hn, rfl⟩

theorem compiles_liftM {r : Result α} (h : ∀ a, r = .ok a → P a) : (liftM r : Build α).Compiles m P :=
  fun _ hn => ensures_liftM.2 fun a ha => ⟨hn, h a ha⟩

theorem compiles_fail {span : Span} {p : Problem} : (fail span p : Build α).Compiles m P :=
  fun _ _ => ensures_fail.2 trivial

theorem compiles_throw {f : Failure} : (throw f : Build α).Compiles m P := fun _ _ => ensures_throw.2 trivial

theorem compiles_ite {c : Prop} [Decidable c] {x y : Build α} (hx : c → x.Compiles m P)
    (hy : ¬ c → y.Compiles m P) : (if c then x else y).Compiles m P := by
  split
  · exact hx ‹_›
  · exact hy ‹_›

theorem compiles_mapM {f : α → Build β} {as : List α} (h : ∀ a ∈ as, (f a).Compiles m Q) :
    (as.mapM f).Compiles m fun bs => ∀ b ∈ bs, Q b := fun n hn =>
  ensures_mapM ⟨hn, by simp⟩ fun a ha bs n' hn' =>
    (h a ha n' hn'.1).mono fun b n'' hb =>
      ⟨hb.1, forall_mem_append.2 ⟨hn'.2, forall_mem_singleton.2 hb.2⟩⟩

theorem compiles_mapM_forall₂ {f : α → Build β} {R : α → β → Prop} {as : List α}
    (h : ∀ a ∈ as, (f a).Compiles m (R a)) : (as.mapM f).Compiles m (List.Forall₂ R as) :=
  fun _ hn => ensures_mapM_forall₂ hn fun a ha n' hn' => h a ha n' hn'

theorem compiles_optionMapM {f : α → Build β} {o : Option α} (h : ∀ a, (f a).Compiles m Q) :
    (o.mapM f).Compiles m fun b => ∀ x ∈ b, Q x := fun n hn =>
  ensures_optionMapM (fun _ => ⟨hn, by simp⟩) fun a _ => (h a n hn).mono fun b n' hb =>
    ⟨hb.1, by simpa using hb.2⟩

theorem compiles_run {f : Model → ExprM α} (hs : m.SoundScope scope) (hf : ∀ n, m.Noted n → (f n).Keeps n P) :
    (settle fun n => run n scope (f n) typed).Compiles m P := fun n hn => by
  rw [ensures_settle]
  exact fun a ha => ⟨hn.trans (run_noted n scope (f n) typed), hf n hn _ (hn.symm.soundScope hs) a ha⟩

variable {path : String} {scope : Scope}

theorem compiles_value (hs : m.SoundScope scope) : (value path node scope).Compiles m m.Sound :=
  compiles_run hs fun n hn =>
    (compile_keeps (Context.of n path) node).mono fun _ he => hn.sound he

theorem compiles_body {nodes : List Node} (hs : m.SoundScope scope) :
    (body path nodes scope).Compiles m fun es => ∀ e ∈ es, m.Sound e :=
  compiles_run hs fun n hn =>
    (compileAll_keeps (Context.of n path) nodes).mono fun _ hes e he => hn.sound (hes e he)

theorem lambda_keeps_sound (hn : m.Noted n) (node : Node) (typed : List Typed) :
    (Expression.lambda (Context.of n path) node.attrs (node.parameters.map (·.attrs))
      (compileAll (Context.of n path) node.body) typed none).Keeps n m.Sound :=
  (lambda_keeps (Context.of n path) _ _ node.body typed).mono fun _ he => hn.sound he

theorem compiles_lambda (hs : m.SoundScope scope) : (Build.lambda path node scope typed).Compiles m m.Sound :=
  compiles_run hs fun _ hn => lambda_keeps_sound hn node typed

theorem compiles_tryLambda (hs : m.SoundScope scope) :
    (tryLambda path node scope).Compiles m fun r => ∀ e, r = .ok e → m.Sound e := fun n hn =>
  ensures_tryLambda.2 ⟨hn.trans (run_noted n _ _ _),
    lambda_keeps_sound hn node [] _ (hn.symm.soundScope hs)⟩

theorem compiles_fits {e : Expr} {declared : Typed} {stub : String} {span : Span} :
    (fits e declared stub span).Compiles m fun _ => m.Admits declared e := fun n hn =>
  ensures_fits.2 fun h k => ⟨hn, by rwa [hn.isSubType] at h, k⟩

end Build

open Build

variable {m : Model} {path : String} {scope : Scope}

/-! ### Members -/

theorem soundScope_nil : m.SoundScope [] := forall_mem_nil _

theorem parameterScope_sound {outer : Scope} (h : m.SoundScope outer) :
    ∀ ps : List Param, m.SoundScope (parameterScope ps outer)
  | [] => h
  | _ :: ps => parameterScope_sound (h.cons soundDates_none) ps

theorem thisScope_sound (hn : m.Noted n) (t : TypeRef) : m.SoundScope [thisBinding n t] :=
  forall_mem_singleton.2 (hn.soundDates (thisBinding_sound t))

theorem QualifiedDecl.compileBody_compiles (q : QualifiedDecl) (signature : QualifiedProperty)
    (this : TypeRef) (ownerName : String) :
    (q.compileBody path signature this ownerName).Compiles m fun body => (∀ x ∈ body, m.Sound x) ∧
      ∃ last, body.getLast? = some last ∧ m.Admits (signature.type, signature.multiplicity) last := by
  refine compiles_ite (fun _ => compiles_fail.bind (P := fun _ => True) fun _ _ => ?_) fun _ => ?_
  all_goals
    refine compiles_get.bind fun n hn => ?_
    refine (compiles_body (parameterScope_sound (thisScope_sound hn this) _)).bind fun body hbody => ?_
    split
    · rename_i last _ hlast _
      exact compiles_fits.bind fun _ hfits => compiles_pure ⟨hbody, last, hlast, hfits⟩
    · exact compiles_fail

theorem ConstraintDecl.compileCondition_compiles (d : ConstraintDecl) (hs : m.SoundScope scope) :
    (d.compileCondition path scope).Compiles m fun e => m.Sound e ∧
      ∃ last, e.lastOfBody? = some last ∧ last.raw.path = Library.boolean.path := by
  refine (compiles_tryLambda hs).bind fun r hr => ?_
  cases r with
  | error f => exact compiles_throw
  | ok e =>
    refine compiles_ite (fun h => compiles_pure ⟨hr e rfl, ?_⟩) fun _ => compiles_fail
    rcases hl : e.lastOfBody? with _ | last <;> rw [hl] at h
    · cases h
    · simp only [map_some, RawType.isRef] at h
      cases hraw : last.raw with
      | named t => simpa [RawType.same, RawType.path, hraw] using h
      | function => simp [RawType.same, hraw] at h

theorem ConstraintDecl.compile_compiles (d : ConstraintDecl) (hs : m.SoundScope scope) :
    (d.compile path scope).Compiles m fun k => k.Checked m := by
  refine (d.compileCondition_compiles hs).bind fun condition hcondition => ?_
  refine Compiles.bind ?_ fun message hmessage =>
    compiles_pure ⟨by simpa [Constraint.expressions] using ⟨hcondition.1, hmessage⟩, hcondition.2⟩
  unfold compileMessage
  split
  · exact compiles_pure (by simp)
  · refine (compiles_tryLambda hs).bind fun r hr => ?_
    cases r with
    | ok e => exact compiles_pure (by simpa using hr e rfl)
    | error f =>
      refine Compiles.bind (P := fun _ => True) (fun n hn => ensures_modify.2 ⟨?_, trivial⟩) fun _ _ =>
        compiles_pure (by simp)
      exact hn.trans ⟨rfl, rfl, rfl, rfl⟩

theorem DatedProperty.bodyScope_sound (target : Temporal) (q : QualifiedProperty) :
    m.SoundScope (bodyScope target q) := parameterScope_sound soundScope_nil _

theorem DatedProperty.compile_compiles (d : DatedProperty) (owner : TypeRef) (q : QualifiedProperty) :
    (d.compile owner q).Compiles m fun q' => ∃ e, q' = { q with body := [e] } ∧ m.Sound e := by
  intro n hn a n' h
  unfold compile at h
  dsimp only at h
  split at h
  · rename_i e _ hv
    cases h
    obtain ⟨hnoted, hsound⟩ := compiles_value (bodyScope_sound _ q) n hn e _ hv
    exact ⟨hnoted, e, rfl, hsound⟩
  · cases h

/-! ### Tests -/

theorem TestParameterDecl.compile_compiles (d : TestParameterDecl) (p : Param) (span : Span) :
    (d.compile path p span).Compiles m fun a => ∀ x ∈ a.value, m.Sound x := by
  refine compiles_ite (fun _ => compiles_fail.bind (P := fun _ => True) fun _ _ => ?_) fun _ => ?_
  all_goals
    split
    · exact compiles_ite (fun _ => compiles_pure (by simp)) fun _ => compiles_fail
    · exact (compiles_value soundScope_nil).bind fun e he =>
        compiles_ite (fun _ => compiles_pure (by simpa using he)) fun _ => compiles_fail
    · exact compiles_throw

theorem AssertionDecl.compile_compiles (d : AssertionDecl) (result : Typed) (span : Span) :
    (d.compile path result span).Compiles m fun a => ∀ x ∈ a.expected, m.Sound x := by
  refine compiles_ite (fun _ => ?_) fun _ => compiles_ite (fun _ => ?_) fun _ => compiles_throw
  · split
    · exact compiles_fail
    · exact (compiles_value soundScope_nil).bind fun e he =>
        compiles_ite (fun _ => compiles_pure (by simpa using he)) fun _ => compiles_fail
  · split
    · exact compiles_pure (by simp)
    · exact compiles_fail

theorem FunctionTestDecl.compile_compiles (d : FunctionTestDecl) (parameters : List Param) (result : Typed) :
    (d.compile path parameters result).Compiles m fun t => ∀ x ∈ t.expressions, m.Sound x := by
  refine compiles_ite (fun _ => compiles_fail.bind (P := fun _ => True) fun _ _ => ?_) fun _ => ?_
  all_goals
    refine (compiles_mapM fun a _ => a.1.compile_compiles a.2 _).bind fun arguments hargs => ?_
    split
    · exact compiles_fail
    · refine (AssertionDecl.compile_compiles _ _ _).bind fun assertion hassert => compiles_pure ?_
      refine forall_mem_append.2 ⟨fun x hx => ?_, by simpa using hassert⟩
      obtain ⟨a, ha, hx⟩ := mem_flatMap.1 hx
      exact hargs a ha x (mem_toList.1 hx)

theorem FunctionDecl.compileTests_compiles (d : FunctionDecl) (f : FunctionContent) :
    (d.compileTests f).Compiles m fun ts => ∀ t ∈ ts, ∀ x ∈ t.expressions, m.Sound x := by
  refine compiles_ite (fun _ => compiles_pure (by simp)) fun _ => ?_
  refine compiles_ite (fun _ => compiles_fail.bind (P := fun _ => True) fun _ _ => ?_) fun _ => ?_
  all_goals
    refine compiles_ite (fun _ => compiles_fail.bind (P := fun _ => True) fun _ _ => ?_) fun _ => ?_
    all_goals exact compiles_mapM fun t _ => t.compile_compiles _ _

end ModelGraph
