/-
# Expressions in models that are alike

Of the options, a compilation reads one: whether a call that finds another function than it
names is an error. If it is not, the call is warned about. So in models that are alike, a
compilation comes to the same under the same options, failures of lambdas that were given up
included, and under any other options unless it warns about such a call.

Key definitions: `Finding.IsMismatch`, `Matched`.
Key theorems: `Expression.tryEach_agrees`, `Expression.compile_agrees`, `Expression.run_agrees`.
-/
import Mathlib.Data.List.Infix
import ModelGraph.Proofs.Expression.Likeness
import ModelGraph.Proofs.Expression.Logic

namespace ModelGraph

open Navigation List

variable {builders builders' : List (Option LambdaBuilder)}

/-! ### Runs that agree -/

/-- The warning that a call finds another function than it names. -/
def Finding.IsMismatch (f : Finding) : Prop := f.rule = "function-matching"

/-- No warning is about a call that finds another function than it names. -/
def Matched (ws : List Finding) : Prop := ∀ w ∈ ws, ¬w.IsMismatch

theorem Matched.before {ws ws' : List Finding} (h : Matched ws') (hws : ws <+: ws') : Matched ws :=
  fun w hw => h w (hws.subset hw)

/-- Models that are alike, the second under the options of the first one or, unless `P`, under any
if the first is under the default options. -/
structure Model.Aligned (P : Prop) (m m' : Model) : Prop extends m.Like m' where
  options : m'.options = m.options ∨ ¬P ∧ m.options = {}

/-- The same element as a place to look names up from, in models that are aligned. -/
structure Context.Aligned (P : Prop) (c c' : Context) : Prop extends c.Like c' where
  options : c'.model.options = c.model.options ∨ ¬P ∧ c.model.options = {}

variable {P : Prop}

theorem Model.Aligned.context {m m' : Model} (h : m.Aligned P m') (path : String) :
    (Context.of m path).Aligned P (Context.of m' path) := ⟨Context.like_of h.toLike path, h.options⟩

namespace ExprM

variable {α β : Type} {x x' : ExprM α} {s : ExprState}

/-- A compilation adds to the warnings. If `P`, or if none of them is about a call that finds
another function than it names, the second compilation comes to the same. -/
def Agrees (P : Prop) (x x' : ExprM α) : Prop :=
  ∀ s, s.warnings <+: (x s).2.warnings ∧ (P ∨ Matched (x s).2.warnings → x' s = x s)

theorem agrees_of_eq (h : ∀ s, (x s).2.warnings = s.warnings) : x.Agrees P x :=
  fun s => ⟨h s ▸ prefix_rfl, fun _ => rfl⟩

theorem agrees_pure (a : α) : Agrees P (pure a) (pure a) := agrees_of_eq fun _ => rfl

theorem agrees_ofResult (r : Result α) : Agrees P (ofResult r) (ofResult r) := agrees_of_eq fun _ => rfl

theorem agrees_fail (span : Span) (p : Problem) : Agrees P (fail span p : ExprM α) (fail span p) :=
  agrees_ofResult _

theorem agrees_scope : scope.Agrees P scope := agrees_of_eq fun _ => rfl

theorem agrees_declare (b : Binding) : (declare b).Agrees P (declare b) := agrees_of_eq fun _ => rfl

theorem agrees_opens (names : List String) : (opens names).Agrees P (opens names) := agrees_of_eq fun _ => rfl

theorem agrees_freshSerial : freshSerial.Agrees P freshSerial := agrees_of_eq fun _ => rfl

theorem Agrees.bind {f f' : α → ExprM β} (hx : x.Agrees P x') (hf : ∀ a, (f a).Agrees P (f' a)) :
    (x >>= f).Agrees P (x' >>= f') := by
  intro s
  obtain ⟨hadds, hsame⟩ := hx s
  rw [bind_run, bind_run]
  rcases hrun : x s with ⟨e | a, t⟩ <;> rw [hrun] at hadds hsame
  · exact ⟨hadds, fun h => by rw [hsame h]⟩
  · obtain ⟨hadds', hsame'⟩ := hf a t
    refine ⟨hadds.trans hadds', fun h => ?_⟩
    rw [hsame (h.imp_right (·.before hadds'))]
    exact hsame' h

theorem Agrees.map {f : α → β} (hx : x.Agrees P x') : (f <$> x).Agrees P (f <$> x') := by
  exact hx.bind fun a => agrees_pure (f a)

theorem agrees_ite {p : Prop} [Decidable p] {y y' : ExprM α} (hx : x.Agrees P x') (hy : y.Agrees P y') :
    (if p then x else y).Agrees P (if p then x' else y') := by
  split
  · exact hx
  · exact hy

theorem Agrees.inner (hx : x.Agrees P x') : (inner x).Agrees P (inner x') := by
  intro s
  obtain ⟨hadds, hsame⟩ := hx { s with opened := [], lets := [] }
  unfold ExprM.inner
  rcases hrun : x { s with opened := [], lets := [] } with ⟨e | a, t⟩ <;> rw [hrun] at hadds hsame
  · exact ⟨hadds, fun h => by rw [hsame h]⟩
  · exact ⟨hadds, fun h => by rw [hsame h]⟩

theorem Agrees.within {b : Binding} (hx : x.Agrees P x') : (within b x).Agrees P (within b x') := by
  intro s
  obtain ⟨hadds, hsame⟩ := hx { s with scope := b :: s.scope }
  refine ⟨hadds, fun h => ?_⟩
  unfold ExprM.within
  rw [hsame h]

theorem Agrees.attempt (hx : x.Agrees P x') : (attempt x).Agrees P (attempt x') := by
  intro s
  obtain ⟨hadds, hsame⟩ := hx s
  refine ⟨hadds, fun h => ?_⟩
  unfold ExprM.attempt
  rw [hsame h]

theorem agrees_datesOf (e : Expr) : (datesOf e).Agrees P (datesOf e) := by
  unfold datesOf
  split
  · exact agrees_pure _
  · exact agrees_scope.bind fun _ => agrees_pure _
  · exact agrees_pure _

end ExprM

theorem Navigation.select_agrees (m : Model) (name : String) (receiver : Expr) (given : List Expr) (span : Span) :
    (select m name receiver given span).Agrees P (select m name receiver given span) := by
  unfold select
  split
  · exact ExprM.agrees_fail _ _
  · refine (ExprM.agrees_datesOf _).bind fun context => ?_
    split
    · exact ExprM.agrees_ofResult _
    · exact (ExprM.agrees_ofResult _).bind fun found => ExprM.agrees_pure _

/-! ### Calls -/

namespace Expression

open ExprM

variable {c c' : Context}

theorem callDates_agrees (m : Model) (name : String) (args : List Expr) :
    (callDates m name args).Agrees P (callDates m name args) := by
  unfold callDates
  split
  · split
    · exact agrees_pure _
    · split <;> exact agrees_pure _
  · exact agrees_ite (agrees_datesOf _) (agrees_pure _)
  · exact agrees_pure _

theorem bindLet_agrees (args : List Expr) : (bindLet args).Agrees P (bindLet args) := by
  unfold bindLet
  split
  · exact (agrees_datesOf _).bind fun dates => (agrees_declare _).bind fun _ => agrees_of_eq fun _ => rfl
  · exact agrees_pure _

theorem apply_agrees (c : Context) (found : Candidate) (args : List Expr) (span : Span) :
    (apply c found args span).Agrees P (apply c found args span) := by
  unfold apply
  dsimp only
  split
  · refine (callDates_agrees _ _ _).bind fun dates => agrees_ite ?_ (agrees_pure _)
    exact (bindLet_agrees args).bind fun _ => agrees_pure _
  · refine (agrees_pure _).bind fun dates => agrees_ite ?_ (agrees_pure _)
    exact (bindLet_agrees args).bind fun _ => agrees_pure _

/-- Two lambdas among the arguments of a call agree whatever they are given. -/
def AgreeingBuilders (P : Prop) : Option LambdaBuilder → Option LambdaBuilder → Prop
  | none, none => True
  | some b, some b' => ∀ typed dates, (b typed dates).Agrees P (b' typed dates)
  | _, _ => False

theorem fill_agrees (found : Candidate) (all : List (Option Expr)) (dates : Option (Dates Expr))
    (h : List.Forall₂ (AgreeingBuilders P) builders builders') :
    ∀ (i : Nat) (args : List (Option Expr)),
      (fill found all dates i builders args).Agrees P (fill found all dates i builders' args) := by
  induction h with
  | nil =>
    intro i args
    exact agrees_pure []
  | @cons b b' builders builders' hb _ ih =>
    intro i args
    cases args with
    | nil => cases b <;> cases b' <;> exact agrees_pure []
    | cons e args =>
      cases b with
      | none =>
        cases b' with
        | none =>
          cases e with
          | none => exact agrees_pure []
          | some e => exact (ih (i + 1) args).bind fun es => agrees_pure (e :: es)
        | some b' => exact hb.elim
      | some b =>
        cases b' with
        | none => exact hb.elim
        | some b' =>
          exact (hb _ _).bind fun e => (ih (i + 1) args).bind fun es => agrees_pure (e :: es)

theorem agrees_of_warned {α : Type} {f : Finding} {x : ExprM α} (hP : ¬P) (hf : f.IsMismatch) (hx : x.Agrees P x)
    (y : ExprM α) :
    (warn f >>= fun _ => x).Agrees P y := by
  intro s
  obtain ⟨hadds, -⟩ := hx { s with warnings := s.warnings ++ [f] }
  have hrun : (warn f >>= fun _ => x) s = x { s with warnings := s.warnings ++ [f] } := rfl
  refine ⟨(prefix_append _ _).trans hadds, fun h => ?_⟩
  exact absurd hf ((h.resolve_left hP).before hadds f (mem_append_right _ (mem_singleton_self f)))

theorem agrees_warn (f : Finding) : (warn f).Agrees P (warn f) := fun _ => ⟨prefix_append _ _, fun _ => rfl⟩

theorem variableExpr_agrees (c : Context) (a : NodeAttrs) : (variableExpr c a).Agrees P (variableExpr c a) := by
  refine agrees_ite ?_ (agrees_scope.bind fun scope => ?_)
  · exact (agrees_ofResult _).bind fun p => (agrees_declare _).bind fun _ => agrees_pure _
  · cases scope.lookup? a.name with
    | none => exact agrees_fail _ _
    | some b => exact (agrees_opens _).bind fun _ => agrees_pure _

theorem bindParameters_agrees (c : Context) : ∀ (as : List NodeAttrs) (typed : List Typed)
    (dates : Option (Dates Expr)), (bindParameters c as typed dates).Agrees P (bindParameters c as typed dates)
  | [], _, _ => agrees_pure []
  | _ :: as, typed, _ => (agrees_ofResult _).bind fun p => (agrees_declare _).bind fun _ =>
    (bindParameters_agrees c as typed.tail none).bind fun ps => agrees_pure (p :: ps)

theorem element_agrees (c : Context) (a : NodeAttrs) : (element c a).Agrees P (element c a) :=
  agrees_ite (agrees_pure _) ((agrees_ofResult _).bind fun _ => agrees_freshSerial.bind fun _ => agrees_pure _)

section Aligned

variable (h : c.Aligned P c')
include h

/-- **Candidates are tried alike.** Where the options make a difference, the call is warned
about. -/
theorem tryEach_agrees (name check : String) (hb : List.Forall₂ (AgreeingBuilders P) builders builders')
    (args : List (Option Expr)) (dates : Option (Dates Expr)) (span : Span) :
    ∀ (fs : List Candidate) (failed : Option Failure) (attempted : Option (List Expr)),
      (tryEach c name check builders args dates span fs failed attempted).Agrees P
        (tryEach c' name check builders' args dates span fs failed attempted)
  | [], failed, attempted => by
    unfold tryEach
    split
    · exact agrees_ofResult _
    · exact agrees_fail _ _
    · exact agrees_fail _ _
  | f :: fs, failed, attempted => by
    have rest := tryEach_agrees name check hb args dates span fs
    refine agrees_ite (rest _ _) ((fill_agrees f args dates hb 0 args).attempt.bind fun r => ?_)
    cases r with
    | error e => exact rest _ _
    | ok full =>
      dsimp only
      rw [f.accepts_like h.model, apply_like h.toLike, h.element]
      refine agrees_ite ?_ (rest _ _)
      cases controlProblem? check f with
      | none => exact apply_agrees c f full span
      | some problem =>
        dsimp only
        rcases h.options with hoptions | ⟨hP, hdefault⟩
        · rw [hoptions]
          exact agrees_ite (agrees_fail _ _) ((agrees_warn _).bind fun _ => apply_agrees c f full span)
        · rw [hdefault]
          refine agrees_of_warned hP ?_ (apply_agrees c f full span) _
          rfl

theorem dispatch_agrees (function control : String) (hb : List.Forall₂ (AgreeingBuilders P) builders builders')
    (args : List (Option Expr)) (span : Span) :
    (dispatch c function control builders args span).Agrees P
      (dispatch c' function control builders' args span) := by
  rcases hname : callName function control with ⟨name, check⟩
  simp only [dispatch, hname, h.candidates]
  refine (agrees_ofResult _).bind fun found => ?_
  have rest (dates : Option (Dates Expr)) := tryEach_agrees h name check hb args dates span found none none
  rcases args with _ | ⟨_ | first, args⟩
  · exact (agrees_pure _).bind rest
  · exact (agrees_pure _).bind rest
  · exact (agrees_datesOf first).bind rest

/-! ### Nodes -/

theorem lambda_agrees {body body' : ExprM (List Expr)} (hbody : body.Agrees P body') (a : NodeAttrs)
    (parameters : List NodeAttrs) (typed : List Typed) (dates : Option (Dates Expr)) :
    (lambda c a parameters body typed dates).Agrees P (lambda c' a parameters body' typed dates) := by
  unfold lambda
  rw [bindParameters_like h.toLike]
  refine Agrees.bind (Agrees.inner ?_) fun r => ?_
  · refine (bindParameters_agrees c parameters typed dates).bind fun ps => hbody.bind fun es => ?_
    cases es.getLast? with
    | none => exact agrees_fail _ _
    | some last => exact agrees_pure _
  · exact (agrees_opens _).bind fun _ => agrees_freshSerial.bind fun serial => agrees_pure _

theorem mapped_agrees {given given' : ExprM (List Expr)} (hgiven : given.Agrees P given') (a : NodeAttrs)
    (receiver : RawType) :
    AgreeingBuilders P (some (mapped c a receiver given)) (some (mapped c' a receiver given')) := by
  refine lambda_agrees h ?_ _ _
  rw [variableExpr_like h.toLike, select_like h.model]
  refine (variableExpr_agrees c _).bind fun one => hgiven.bind fun es => ?_
  exact (select_agrees _ _ _ _ _).bind fun e => agrees_pure [e]

end Aligned

mutual

/-- **A node is compiled alike in models that are aligned**, unless a call is warned about. -/
theorem compile_agrees (h : c.Aligned P c') : ∀ n : Node, (compile c n).Agrees P (compile c' n)
  | .mk a parameters body values subTrees => by
    rw [compile.eq_def, compile.eq_def]
    dsimp only
    cases a.form with
    | literal | classInstance | unknown => exact agrees_ofResult _
    | enumValue =>
      rw [enumValue_like h.toLike]
      exact agrees_ofResult _
    | var =>
      rw [variableExpr_like h.toLike]
      exact variableExpr_agrees c a
    | call =>
      refine (compileArguments_agrees h parameters).bind fun args => ?_
      exact dispatch_agrees h _ _ (lambdaBuilders_agree h parameters) args _
    | property =>
      cases parameters with
      | nil => exact agrees_fail _ _
      | cons r rest =>
        have hrest : (compileAll c rest).Agrees P (compileAll c' rest) := compileAll_agrees h rest
        dsimp only
        rw [enumReceiver?_like h.toLike, select_like h.model]
        cases enumReceiver? c r.attrs with
        | some e => exact agrees_ofResult _
        | none =>
          refine (compile_agrees h r).bind fun receiver => agrees_ite ?_ ?_
          · exact hrest.bind fun given => select_agrees _ _ _ _ _
          · refine dispatch_agrees h "map" "" ?_ _ _
            exact .cons trivial (.cons (mapped_agrees h hrest a receiver.raw) .nil)
    | lambda => exact lambda_agrees h (compileAll_agrees h body) a _ [] none
    | collection =>
      rw [collect_like h.toLike]
      exact (compileItems_agrees h values).bind fun items => agrees_pure _
    | element =>
      rw [element_like h.toLike]
      exact element_agrees c a
    | tree =>
      rw [h.resolveClass]
      refine (agrees_ofResult _).bind fun t => ?_
      exact (compileBranches_agrees h subTrees t).bind fun branches => agrees_pure _
    | branch => exact agrees_fail _ _

theorem compileAll_agrees (h : c.Aligned P c') : ∀ ns : List Node, (compileAll c ns).Agrees P (compileAll c' ns)
  | [] => by
    exact agrees_pure []
  | n :: ns => by
    rw [compileAll]
    exact (compile_agrees h n).bind fun e => (compileAll_agrees h ns).bind fun es => agrees_pure (e :: es)

theorem compileItems_agrees (h : c.Aligned P c') : ∀ ns : List Node, (compileItems c ns).Agrees P (compileItems c' ns)
  | [] => by
    exact agrees_pure []
  | n :: ns => by
    rw [compileItems]
    refine (compile_agrees h n).bind fun e => agrees_ite ?_ (agrees_fail _ _)
    exact (compileItems_agrees h ns).bind fun es => agrees_pure (e :: es)

theorem compileArguments_agrees (h : c.Aligned P c') : ∀ ns : List Node,
    (compileArguments c ns).Agrees P (compileArguments c' ns)
  | [] => by
    exact agrees_pure []
  | n :: ns => by
    rw [compileArguments]
    have hrest : (compileArguments c ns).Agrees P (compileArguments c' ns) := compileArguments_agrees h ns
    refine agrees_ite (hrest.bind fun es => agrees_pure (none :: es)) ?_
    exact (compile_agrees h n).bind fun e => hrest.bind fun es => agrees_pure (some e :: es)

theorem lambdaBuilders_agree (h : c.Aligned P c') : ∀ ns : List Node,
    List.Forall₂ (AgreeingBuilders P) (lambdaBuilders c ns) (lambdaBuilders c' ns)
  | [] => by
    exact .nil
  | .mk a parameters body values subTrees :: ns => by
    rw [lambdaBuilders]
    refine .cons ?_ (lambdaBuilders_agree h ns)
    split
    · exact lambda_agrees h (compileAll_agrees h body) a _
    · trivial

theorem compileBranch_agrees (h : c.Aligned P c') : ∀ (n : Node) (t : TypeRef),
    (compileBranch c n t).Agrees P (compileBranch c' n t)
  | .mk a parameters body values subTrees, t => by
    rw [compileBranch, compileBranch, h.model.member, h.resolveClass]
    refine agrees_ite (agrees_fail _ _) ?_
    refine (compileAll_agrees h parameters).within.bind fun args => (agrees_ofResult _).bind fun found => ?_
    have hbranches (next : TypeRef) : (compileBranches c subTrees next).Agrees P (compileBranches c' subTrees next) :=
      compileBranches_agrees h subTrees next
    refine agrees_ite ((agrees_pure _).bind fun subType => ?_) ((agrees_ofResult _).map.bind fun subType => ?_)
    all_goals
      refine agrees_ite ((agrees_pure _).bind fun branches => agrees_pure _) ?_
      exact (agrees_ofResult _).bind fun next => (hbranches next).bind fun branches => agrees_pure _

theorem compileBranches_agrees (h : c.Aligned P c') : ∀ (ns : List Node) (t : TypeRef),
    (compileBranches c ns t).Agrees P (compileBranches c' ns t)
  | [], t => by
    exact agrees_pure []
  | n :: ns, t => by
    rw [compileBranches]
    refine (compileBranch_agrees h n t).bind fun b => ?_
    exact (compileBranches_agrees h ns t).bind fun bs => agrees_pure (b :: bs)

end

/-! ### Compilations in a model -/

/-- What a compilation in a model comes to in another one: the same, with the same warnings. -/
theorem run_agrees {α : Type} {x x' : ExprM α} (h : x.Agrees P x') (m m' : Model) (scope : Scope)
    (typed : List Typed) :
    ∃ ws, (run m scope x typed).2 = { m with warnings := m.warnings ++ ws } ∧
      (P ∨ Matched (m.warnings ++ ws) →
        run m' scope x' typed = ((run m scope x typed).1, { m' with warnings := m'.warnings ++ ws })) := by
  obtain ⟨-, hsame⟩ := h { scope, serial := max scope.nextSerial (parameterSerials typed) }
  refine ⟨_, rfl, fun hmatched => ?_⟩
  unfold run
  rw [hsame (hmatched.imp_right fun h w hw => h w (mem_append_right _ hw))]
  rfl

end Expression
end ModelGraph
