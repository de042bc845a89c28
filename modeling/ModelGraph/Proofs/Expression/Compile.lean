/-
# Compiled expressions

A call is only made of a candidate that accepts its arguments, and a property is only applied to
exactly one value or, mapped over several, to a variable that stands for one of them. So compiling
obeys all laws of expressions and of states. Whatever compiles is sound in the model it was compiled
in, and what fails to compile fails with a told failure.

Key definitions: `Expression.Builds`, `ExprLaws.sound`.
Key theorems: `Expression.compile_holds`, `Expression.compile_keeps`, `Expression.compile_told`.
-/
import ModelGraph.Proofs.Build.Notes
import ModelGraph.Proofs.Expression.Logic

namespace ModelGraph

open Model ExprM List Result Context Library Navigation Failure

variable {m : Model} {name function control tag : String} {f : Candidate} {fs : List Candidate} {args : List Expr}
  {s : ExprState} {dates : Option (Dates Expr)} {builders : List (Option LambdaBuilder)}
  {compileBody : ExprM (List Expr)} {typed : List Typed} {c : Context} {span : Span} {a : NodeAttrs} {p : Param}
  {receiver : RawType} {e : Expr} {n : Node}

/-! ### Candidates -/

theorem Candidate.isOf_native {g : String × Native} (h : g ∈ nativesCalled name) : (Candidate.native g.1 g.2).IsOf m :=
  ⟨_, rfl, _, .inr (mem_natives h), rfl, rfl⟩

theorem Model.isOf_of_mem_candidatesAt {key : String} (h : f ∈ m.candidatesAt key) : f.IsOf m := by
  unfold candidatesAt at h
  split at h
  · obtain ⟨g, hg, rfl⟩ := mem_map.1 h
    exact Candidate.isOf_native hg
  · rcases mem_append.1 h with h | h
    · obtain ⟨g, hg, rfl⟩ := mem_map.1 h
      exact Candidate.isOf_native (mem_of_mem_filter hg)
    · obtain ⟨e, he, h⟩ := mem_filterMap.1 h
      split at h
      · rename_i content hcontent
        obtain ⟨-, h⟩ := Option.ite_none_right_eq_some.1 h
        cases h
        exact ⟨e.path, rfl, e, .inl he, rfl, by simp [Element.parameters?, hcontent, Candidate.parameters]⟩
      · cases h

theorem Context.isOf_of_candidates (h : c.candidates name span = .ok fs) : ∀ f ∈ fs, f.IsOf c.model := by
  unfold candidates at h
  split at h
  · rename_i hfound
    cases h
    exact fun f hf => isOf_of_mem_candidatesAt (hfound ▸ hf)
  · dsimp only at h
    split at h
    · cases h
    · rename_i full found hhits
      cases h
      have hmem : (full, fs) ∈ [(full, fs)] := mem_singleton_self _
      rw [← hhits] at hmem
      obtain ⟨package, -, h⟩ := mem_filterMap.1 hmem
      split at h
      · cases h
      · cases h
        exact fun f hf => isOf_of_mem_candidatesAt hf
    · cases h

theorem Library.lambdaRule_map : ∀ g ∈ nativesCalled "map", g.2.lambdaRule = .elementOf 0 := by
  decide +kernel

theorem Context.mem_candidates_map (h : c.candidates "map" span = .ok fs) (hf : f ∈ fs) :
    ∃ n ∈ nativesCalled "map", f = .native n.1 n.2 := by
  have hcut : Path.cutLast "map" = none := by decide +kernel
  have hat : c.model.candidatesAt "map" =
      (nativesCalled "map").map fun n => .native n.1 n.2 := by
    rw [candidatesAt, hcut]
  obtain ⟨g, gs, hg⟩ : ∃ g gs, nativesCalled "map" = g :: gs :=
    exists_cons_of_ne_nil (by decide +kernel)
  unfold candidates at h
  rw [hat, hg] at h
  cases h
  obtain ⟨n, hn, rfl⟩ := mem_map.1 (show f ∈ (g :: gs).map fun n => .native n.1 n.2 from hf)
  exact ⟨n, hg ▸ hn, rfl⟩

theorem Context.candidates_map (h : c.candidates "map" span = .ok fs)
    (args : List (Option Expr)) (i : Nat) : ∀ f ∈ fs, ∀ t ∈ (f.lambdaTypes args i).head?, t.2 = .one := by
  intro f hf t ht
  obtain ⟨n, hn, rfl⟩ := mem_candidates_map h hf
  simp only [Candidate.lambdaTypes, Native.lambdaTypes, lambdaRule_map n hn] at ht
  split at ht
  · cases ht
    rfl
  · cases ht

theorem StateLaws.calls_map (S : StateLaws) (c : Context) (span : Span) (text : Option String) :
    S.Calls c "map" "" span text := by
  have hname : callName "map" "" = ("map", "") := by decide +kernel
  have hlet : ∀ n ∈ nativesCalled "map", n.2.functionName ≠ "letFunction" := by decide +kernel
  constructor <;> rw [hname]
  · intro _ fs f _ h hf hletf
    obtain ⟨n, hn, rfl⟩ := mem_candidates_map h hf
    exact absurd hletf (hlet n hn)
  · intro _ _ _ _ _ _ h
    cases h

theorem Candidate.forall₂_of_fitAll : ∀ {ps : List Typed} {args : List Expr},
    fitAll m ps args = true → Forall₂ m.Admits ps args
  | [], [], _ => .nil
  | p :: ps, a :: args, h => by
    simp only [fitAll, fits, Bool.and_eq_true] at h
    exact .cons h.1 (forall₂_of_fitAll h.2)
  | [], _ :: _, h => by cases h
  | _ :: _, [], h => by cases h

/-! ### Calls -/

namespace Expression

variable {c : Context} {L : ExprLaws c} {S : StateLaws} {span : Span}

theorem callDates_kept (m : Model) (name : String) (h : ∀ a ∈ args, L.Good a) (hs : L.KeptScope s.scope) : ∃ dates, callDates m name args s = (.ok dates, s) ∧ KeptDates L.Good dates := by
  unfold callDates
  split
  · rename_i first date rest
    have hdate : L.Good date := (h date (by simp))
    have of_toList (d : Dates Expr) (hd : ∀ x ∈ d.toList, L.Good x) : KeptDates L.Good (some d) := by
      rintro _ ⟨⟩
      exact hd
    rcases first.type.args with _ | ⟨t, ts⟩
    · exact ⟨_, rfl, keptDates_none⟩
    · dsimp only
      cases m.rawTemporal t.raw with
      | none => exact ⟨_, rfl, keptDates_none⟩
      | business => exact ⟨_, rfl, of_toList _ (by simpa [Dates.toList] using hdate)⟩
      | processing => exact ⟨_, rfl, of_toList _ (by simpa [Dates.toList] using hdate)⟩
      | both =>
        cases rest with
        | nil => exact ⟨_, rfl, keptDates_none⟩
        | cons second rest =>
          have hsecond : L.Good second := h second (by simp)
          exact ⟨_, rfl, of_toList _ (by simpa [Dates.toList] using ⟨hdate, hsecond⟩)⟩
  · split
    · exact datesOf_kept (h _ (.head _)) hs
    · exact ⟨_, rfl, keptDates_none⟩
  · exact ⟨_, rfl, keptDates_none⟩

theorem bindLet_cases (h : ∀ a ∈ args, L.Good a) (hs : L.KeptScope s.scope) :
    ∃ t, bindLet args s = (.ok (), t) ∧ (t = s ∨ ∃ b : Binding, KeptDates L.Good b.dates ∧
      args.head?.bind Expr.text? = some b.param.name ∧
      t = { s with scope := b :: s.scope, lets := s.lets ++ [b.param.name] }) := by
  unfold bindLet
  split
  · rename_i value _
    obtain ⟨dates, hrun, hdates⟩ := datesOf_kept (h value (by simp)) hs
    rw [bind_run, hrun]
    exact ⟨_, rfl, .inr ⟨_, hdates, rfl, rfl⟩⟩
  · exact ⟨s, rfl, .inl rfl⟩

theorem apply_run (S : StateLaws) (span : Span) (h : ∀ a ∈ args, L.Good a) (hs : L.KeptScope s.scope)
    (hlet : ∀ b : Binding, f.name = "letFunction" → args.head?.bind Expr.text? = some b.param.name →
      S.Step s { s with scope := b :: s.scope, lets := s.lets ++ [b.param.name] }) :
    ∃ i dates t, apply c f args span s = (.ok (.call i f.name f.callee args "" dates []), t) ∧ i.span = span ∧
      KeptDates L.Good dates ∧ L.KeptScope t.scope ∧ S.Step s t ∧ t.warnings = s.warnings := by
  unfold apply
  rcases f.resultOf c.model args with ⟨type, multiplicity⟩
  have rest (dates : Option (Dates Expr)) (hdates : KeptDates L.Good dates) : ∃ i t, (do
      if f.name = "letFunction" then bindLet args
      return .call { type, multiplicity, span } f.name f.callee args "" dates [] : ExprM Expr) s =
        (.ok (.call i f.name f.callee args "" dates []), t) ∧ i.span = span ∧
      KeptDates L.Good dates ∧ L.KeptScope t.scope ∧ S.Step s t ∧ t.warnings = s.warnings := by
    split
    · rename_i hname
      obtain ⟨t, hrun, ht⟩ := bindLet_cases h hs
      rw [bind_run, hrun]
      refine ⟨_, t, rfl, rfl, hdates, ?_⟩
      rcases ht with rfl | ⟨b, hb, htext, rfl⟩
      · exact ⟨hs, S.refl t, rfl⟩
      · exact ⟨forall_mem_cons.2 ⟨hb, hs⟩, hlet b hname htext, rfl⟩
    · exact ⟨_, s, rfl, rfl, hdates, hs, S.refl s, rfl⟩
  dsimp only
  split
  · obtain ⟨dates, hrun, hdates⟩ := callDates_kept c.model f.name h hs
    rw [bind_run, hrun]
    obtain ⟨i, t, hrest⟩ := rest dates hdates
    exact ⟨i, dates, t, hrest⟩
  · obtain ⟨i, t, hrest⟩ := rest none keptDates_none
    exact ⟨i, none, t, hrest⟩

theorem controlProblem?_isStage {check : String} {found : Candidate} {problem : Problem}
    (h : controlProblem? check found = some problem) : problem.isStage = false := by
  unfold controlProblem? at h
  split at h
  · cases h
  · rw [Option.ite_none_left_eq_some] at h
    cases h.2
    rfl

/-- Given types that satisfy `B` and kept dates, a lambda compiles to a good one, and leaves a state that
satisfies `Q`. -/
def Builds (L : ExprLaws c) (S : StateLaws) (B : List Typed → Prop) (Q : ExprState → Prop) (b : LambdaBuilder) :
    Prop :=
  ∀ typed dates, B typed → KeptDates L.Good dates → (b typed dates).Holds L S fun e t => L.Textless e ∧ Q t

variable {B : List Typed → Prop} {Q : LambdaBuilder → ExprState → Prop}

def firstText : List (Option Expr) → Option String
  | some e :: _ => e.text?
  | _ => none

theorem fill_holds (hQ : ∀ b s t, S.Step s t → Q b s → Q b t) {all : List (Option Expr)}
    (hB : ∀ i, B (f.lambdaTypes all i)) (hdates : KeptDates L.Good dates) (i : Nat)
    (builders : List (Option LambdaBuilder)) (args : List (Option Expr))
    (hpaired : Forall₂ (fun b a => b = none → a ≠ none) builders args)
    (hbuild : ∀ b, some b ∈ builders → Builds L S B (Q b) b) (hargs : ∀ e, some e ∈ args → L.Good e) :
    (fill f all dates i builders args).Holds L S fun es t => (∀ e ∈ es, L.Good e) ∧
      (∀ x, es.head?.bind Expr.text? = some x → firstText args = some x) ∧ ∀ b, some b ∈ builders → Q b t := by
  fun_induction fill f all dates i builders args with
  | case1 i build builders a args ih =>
    cases hpaired with | cons _ hpaired => ?_
    refine (hbuild build (.head _) _ _ (hB i) hdates).bind fun e t ht he => ?_
    have hrest := ih hpaired (fun b hb => hbuild b (.tail _ hb))
      (fun e he => hargs e (.tail _ he)) t ht
    refine (hrest.mono fun es u hu hes => And.intro hes (hQ _ _ _ hu he.2)).bind
      fun es u _ hu hes => meets_pure hu ⟨?_, fun x hx => ?_, ?_⟩
    · exact forall_mem_cons.2 ⟨he.1.1, hes.1.1⟩
    · cases he.1.2.symm.trans hx
    · intro b hb
      rcases mem_cons.1 hb with hb | hb
      · cases hb
        exact hes.2
      · exact hes.1.2.2 b hb
  | case2 i builders e args ih =>
    cases hpaired with | cons _ hpaired => ?_
    refine (ih hpaired (fun b hb => hbuild b (.tail _ hb)) fun e he =>
      hargs e (.tail _ he)).bind fun es u hu hes => meets_pure hu ⟨?_, fun _ h => h, by simpa using hes.2.2⟩
    exact forall_mem_cons.2 ⟨hargs e (.head _), hes.1⟩
  | case3 i builders args h₁ h₂ =>
    refine fun s hs => meets_pure hs ⟨forall_mem_nil _, nofun, ?_⟩
    cases hpaired with
    | nil => simp
    | @cons b a bs as h =>
      cases b with
      | some b => exact (h₁ b bs a as rfl rfl).elim
      | none =>
        obtain ⟨e, he⟩ := Option.ne_none_iff_exists'.1 (h rfl)
        exact (h₂ bs e as rfl (by rw [he])).elim

/-- The call of the candidate that was picked. If it is not the function that was named, that
is reported. -/
def settleOn (c : Context) (check : String) (found : Candidate) (full : List Expr) (span : Span) : ExprM Expr :=
  match controlProblem? check found with
  | none => apply c found full span
  | some problem =>
    if c.model.options.strict then .fail span problem
    else do
      .warn { rule := "function-matching", severity := .warning,
              message := problem.message, path := c.element, span }
      apply c found full span

/-- A candidate accepts arguments that were compiled for it. -/
structure Takes (L : ExprLaws c) (args : List (Option Expr)) (all : List Candidate) (f : Candidate)
    (full : List Expr) : Prop where
  mem : f ∈ all
  accepts : f.accepts c.model full = true
  good : ∀ e ∈ full, L.Good e
  text : ∀ x, full.head?.bind Expr.text? = some x → firstText args = some x

theorem settleOn_meets {args : List (Option Expr)} {full : List Expr}
    (hcalls : S.Calls c function control span (firstText args))
    (hfs : c.candidates (callName function control).1 span = .ok fs) (hf : Takes L args fs f full)
    (hs : L.KeptScope s.scope) : (settleOn c (callName function control).2 f full span).Meets L S s fun e t =>
      L.Textless e ∧ c.Finds function control span t := by
  have happly {s : ExprState} (hs : L.KeptScope s.scope) (hwarned : ∀ problem,
      controlProblem? (callName function control).2 f = some problem → c.mismatch problem span ∈ s.warnings) :
      (apply c f full span).Meets L S s fun e t => L.Textless e ∧ c.Finds function control span t := by
    obtain ⟨i, dates, t, hrun, -, hdates, ht, hstep, hwarnings⟩ := apply_run S span hf.good hs
      fun b hname htext => hcalls.lets hfs hf.mem hname (hf.text _ htext)
    refine meets_of_run hrun ht hstep ⟨ExprLaws.good_call (isOf_of_candidates hfs f hf.mem) hf.accepts hf.good hdates,
      fs, f, hfs, hf.mem, ?_⟩
    rw [hwarnings]
    exact hwarned
  unfold settleOn
  split
  · rename_i hnone
    exact happly hs (by rw [hnone]; nofun)
  · rename_i problem hproblem
    split
    · exact holds_fail (controlProblem?_isStage hproblem) s hs
    · have hwarn := hcalls.warns (s := s) hfs hf.mem hproblem
      refine Meets.bind (P := fun _ u => c.mismatch problem span ∈ u.warnings)
        (meets_of_run rfl hs hwarn (by simp [mismatch])) fun _ u _ hu hmem => happly hu ?_
      intro other hother
      cases hproblem.symm.trans hother
      exact hmem

section Dispatch

variable {args : List (Option Expr)} (hQ : ∀ b s t, S.Step s t → Q b s → Q b t)
  (hpaired : Forall₂ (fun b a => b = none → a ≠ none) builders args)
  (hbuild : ∀ b, some b ∈ builders → Builds L S B (Q b) b) (hargs : ∀ e, some e ∈ args → L.Good e)

include hQ hpaired hbuild hargs

/-- The candidates are tried until one takes the arguments, and only the lambdas are compiled on the way. -/
theorem tryEach_cases (name check : String) (span : Span) {all : List Candidate} (hdates : KeptDates L.Good dates) :
    ∀ (fs : List Candidate) (failed : Option Failure) (attempted : Option (List Expr)) (t : ExprState), S.Step s t →
      L.KeptScope t.scope → (∀ f, failed = some f → f.Told) → (∀ f ∈ fs, f ∈ all) →
      (∀ f ∈ fs, ∀ i, B (f.lambdaTypes args i)) → ∃ u, S.Step s u ∧ L.KeptScope u.scope ∧
        ((∃ e, e.Told ∧ tryEach c name check builders args dates span fs failed attempted t = (.error e, u)) ∨
        ∃ f full, Takes L args all f full ∧ (∀ b, some b ∈ builders → Q b u) ∧
          tryEach c name check builders args dates span fs failed attempted t = settleOn c check f full span u)
  | [], failed, attempted, t, hstep, ht, hfailed, _, _ => by
    refine ⟨t, hstep, ht, .inl ?_⟩
    unfold tryEach
    split
    · exact ⟨_, hfailed _ rfl, rfl⟩
    · exact ⟨_, told_of _ _ rfl, rfl⟩
    · exact ⟨_, told_of _ _ rfl, rfl⟩
  | f :: fs, failed, attempted, t, hstep, ht, hfailed, hmem, hB => by
    obtain ⟨hf, hmem⟩ := forall_mem_cons.1 hmem
    obtain ⟨hBf, hB⟩ := forall_mem_cons.1 hB
    unfold tryEach
    split
    · exact tryEach_cases name check span hdates fs _ _ t hstep ht hfailed hmem hB
    have hfill := fill_holds hQ hBf hdates 0 builders args hpaired hbuild hargs t ht
    rw [bind_run]
    unfold ExprM.attempt
    rcases hrun : fill f args dates 0 builders args t with ⟨e | full, u⟩ <;> rw [Meets, hrun] at hfill
    · refine tryEach_cases name check span hdates fs _ _ u (S.trans hstep hfill.step) hfill.scope ?_ hmem hB
      rintro _ ⟨⟩
      exact hfill.told e rfl
    · obtain ⟨hgood, htext, hbuilt⟩ := hfill.post full rfl
      dsimp only
      split
      · rename_i hfit
        exact ⟨u, S.trans hstep hfill.step, hfill.scope, .inr ⟨f, full, ⟨hf, hfit, hgood, htext⟩, hbuilt, rfl⟩⟩
      · exact tryEach_cases name check span hdates fs _ _ u (S.trans hstep hfill.step) hfill.scope hfailed hmem hB

theorem dispatch_cases (function control : String) (span : Span) (hB : ∀ fs, c.candidates (callName function control).1 span = .ok fs →
      ∀ f ∈ fs, ∀ i, B (f.lambdaTypes args i)) (hs : L.KeptScope s.scope) :
    ∃ t, S.Step s t ∧ L.KeptScope t.scope ∧
      ((∃ e, e.Told ∧ dispatch c function control builders args span s = (.error e, t)) ∨
      ∃ fs f full, c.candidates (callName function control).1 span = .ok fs ∧ Takes L args fs f full ∧
        (∀ b, some b ∈ builders → Q b t) ∧ dispatch c function control builders args span s =
          settleOn c (callName function control).2 f full span t) := by
  rcases hname : callName function control with ⟨name, check⟩
  rw [hname] at hB
  have htold := c.candidates_told name span
  rcases hfs : c.candidates name span with e | fs
  · exact ⟨s, S.refl s, hs, .inl ⟨e, htold e hfs, by simp only [dispatch, hname, bind_run, ofResult, hfs]⟩⟩
  · obtain ⟨dates, hdates, hrun⟩ : ∃ dates, KeptDates L.Good dates ∧
        dispatch c function control builders args span s =
          tryEach c name check builders args dates span fs none none s := by
      simp only [dispatch, hname, bind_run, ofResult, hfs]
      split
      · obtain ⟨dates, hrun, hdates⟩ := datesOf_kept (hargs _ (.head _)) hs
        exact ⟨dates, hdates, by rw [bind_run, hrun]⟩
      · exact ⟨none, keptDates_none, rfl⟩
    obtain ⟨t, hstep, ht, ⟨e, he, h⟩ | ⟨f, full, hf, hbuilt, h⟩⟩ := tryEach_cases hQ hpaired hbuild
      hargs name check span hdates fs none none s (S.refl s) hs (by rintro _ ⟨⟩) (fun _ h => h) (hB fs hfs)
    · exact ⟨t, hstep, ht, .inl ⟨e, he, hrun.trans h⟩⟩
    · exact ⟨t, hstep, ht, .inr ⟨fs, f, full, rfl, hf, hbuilt, hrun.trans h⟩⟩

theorem dispatch_holds (hcalls : S.Calls c function control span (firstText args))
    (hB : ∀ fs, c.candidates (callName function control).1 span = .ok fs → ∀ f ∈ fs, ∀ i, B (f.lambdaTypes args i)) :
    (dispatch c function control builders args span).Holds L S fun e t =>
      (L.Textless e ∧ c.Finds function control span t) ∧ ∀ b, some b ∈ builders → Q b t := by
  intro s hs
  obtain ⟨t, hstep, ht, ⟨e, he, hrun⟩ | ⟨fs, f, full, hfs, hf, hbuilt, hrun⟩⟩ :=
    dispatch_cases hQ hpaired hbuild hargs function control span hB hs
  · rw [Meets, hrun]
    exact ⟨ht, hstep, nofun, throws_error he⟩
  · have h := settleOn_meets hcalls hfs hf ht
    rw [Meets, hrun]
    exact ⟨h.scope, S.trans hstep h.step, fun e he => ⟨h.post e he, fun b hb => hQ b _ _ h.step (hbuilt b hb)⟩, h.told⟩

end Dispatch

/-! ### Variables and lambdas -/

theorem variableExpr_holds (hreads : ∀ s b, a.typePath = "" → s.scope.lookup? a.name = some b →
      S.Step s { s with opened := s.opened ++ [a.name] }) (htypes : ∀ s p, a.typePath ≠ "" → c.parameter a = .ok p →
      S.Step s { s with scope := { param := p } :: s.scope }) :
    (variableExpr c a).Holds L S fun e t => L.Textless e ∧ (a.typePath = "" → a.name ∈ t.opened) := by
  unfold variableExpr
  by_cases htyped : (a.typePath != "") = true
  · rw [if_pos htyped]
    have hne : a.typePath ≠ "" := bne_iff_ne.1 htyped
    refine (gives_ofResult (c.parameter_told a) fun _ h => h).bind fun p hp s hs => ?_
    exact meets_of_run rfl (forall_mem_cons.2 ⟨keptDates_none, hs⟩) (htypes s p hne hp)
      ⟨⟨ExprLaws.good_var _ _, rfl⟩, fun h => absurd h hne⟩
  · rw [if_neg htyped]
    intro s hs
    refine Meets.bind (P := fun scope t => scope = s.scope ∧ t = s) (meets_of_run rfl hs (S.refl s) ⟨rfl, rfl⟩) ?_
    rintro _ t - - ⟨rfl, rfl⟩
    split
    · exact holds_fail rfl t hs
    · rename_i b hb
      have huntyped : a.typePath = "" := by simpa using htyped
      exact meets_of_run rfl hs (hreads t b huntyped hb) ⟨⟨ExprLaws.good_var _ _, rfl⟩, fun _ => by simp⟩

theorem lambdaParameter_told (c : Context) (a : NodeAttrs) (typed : Option Typed) :
    Result.Told (lambdaParameter c a typed) := by
  refine throws_ite (c.parameter_told a) ?_
  split
  · exact throws_ok _
  · exact told_failAt _ _ rfl

theorem lambdaParameter_name {typed : Option Typed} (h : lambdaParameter c a typed = .ok p) : p.name = a.name := by
  unfold lambdaParameter at h
  split at h
  · obtain ⟨type, -, h⟩ := bind_eq_ok.1 h
    cases h
    rfl
  · split at h <;> cases h
    rfl

theorem bindParameters_run (Kept : Expr → Prop) (c : Context) : ∀ (as : List NodeAttrs) (typed : List Typed)
    (dates : Option (Dates Expr)) (s : ExprState), KeptDates Kept dates →
    ∃ (bs : List Binding) (r : Result (List Param)),
      bindParameters c as typed dates s = (r, { s with scope := bs ++ s.scope }) ∧
      (∀ b ∈ bs, KeptDates Kept b.dates) ∧ r.Told ∧ ∀ ps, r = .ok ps →
        ps.map (·.name) = as.map (·.name) ∧ bs.map (·.param.name) = (as.map (·.name)).reverse
  | [], _, _, s, _ => ⟨[], .ok [], rfl, forall_mem_nil _, throws_ok _, by rintro _ ⟨⟩; exact ⟨rfl, rfl⟩⟩
  | a :: as, typed, dates, s, hdates => by
    have htold := lambdaParameter_told c a typed.head?
    rcases hp : lambdaParameter c a typed.head? with f | p
    · rw [hp] at htold
      refine ⟨[], .error f, ?_, forall_mem_nil _, throws_error (htold f rfl), nofun⟩
      rw [bindParameters, bind_run, hp]
      rfl
    · obtain ⟨own, hkept, hfirst⟩ : ∃ own, KeptDates Kept own ∧ bindParameters c (a :: as) typed dates s =
          (do return p :: (← bindParameters c as typed.tail none) : ExprM (List Param))
            { s with scope := { param := p, dates := own } :: s.scope } := by
        refine ⟨_, ?_, by rw [bindParameters, bind_run, hp]; rfl⟩
        split
        · split
          · exact hdates
          · exact keptDates_none
        · exact keptDates_none
      obtain ⟨bs, r, hrun, hbs, hr, hnames⟩ := bindParameters_run Kept c as typed.tail none
        { s with scope := { param := p, dates := own } :: s.scope } keptDates_none
      refine ⟨bs ++ [{ param := p, dates := own }], (p :: ·) <$> r, ?_,
        forall_mem_append.2 ⟨hbs, forall_mem_singleton.2 hkept⟩, hr.map, ?_⟩
      · rw [hfirst, bind_run, hrun]
        cases r with
        | error e => simp
        | ok rest =>
          rw [append_assoc]
          rfl
      · intro ps hps
        obtain ⟨rest, rfl, rfl⟩ := map_eq_ok.1 hps
        obtain ⟨hrest, hscope⟩ := hnames rest rfl
        simp [hrest, hscope, lambdaParameter_name hp]

/-- The names that a lambda takes from outside. -/
def capturedNames (ps : List Param) (t : ExprState) : List String :=
  distinct (t.opened.filter fun name => !(ps.map (·.name) ++ t.lets).contains name)

theorem lambda_run {parameters : List NodeAttrs} {ps : List Param} {bs : List Binding}
    (hps : bindParameters c parameters typed dates { s with opened := [], lets := [] } =
      (.ok ps, { s with scope := bs ++ s.scope, opened := [], lets := [] })) :
    lambda c a parameters compileBody typed dates s =
      match compileBody { s with scope := bs ++ s.scope, opened := [], lets := [] } with
      | (.error f, t) => (.error f, { s with warnings := t.warnings, serial := t.serial })
      | (.ok body, t) => match body.getLast? with
        | none => (failAt a.span .emptyLambda, { s with warnings := t.warnings, serial := t.serial })
        | some last =>
          (.ok (.lambda
              { type := .mk (.named lambdaClass)
                  [.ofRaw (functionType t.serial ps last.type last.multiplicity)]
                multiplicity := .one, span := a.span }
              ps body (capturedNames ps t)),
            { s with
              warnings := t.warnings, serial := t.serial + 1
              opened := s.opened ++ capturedNames ps t }) := by
  unfold lambda
  rw [bind_run]
  simp only [ExprM.inner]
  rw [bind_run, hps]
  dsimp only
  rw [bind_run]
  rcases compileBody { s with scope := bs ++ s.scope, opened := [], lets := [] } with ⟨f | body, t⟩
  · rfl
  · dsimp only
    cases body.getLast? with
    | none => rfl
    | some last => rfl

variable {N : NodeLaws c} {ns : List String} {ks : List Node}

/-- A lambda is good if its body is, compiled where its parameters were brought into scope. What the
body looks up of them first is its own. -/
theorem lambda_holds {parameters : List NodeAttrs} (hdates : KeptDates L.Good dates)
    (hbody : ∀ (s : ExprState) (ps : List Param) (bs : List Binding),
      bindParameters c parameters typed dates { s with opened := [], lets := [] } =
        (.ok ps, { s with scope := bs ++ s.scope, opened := [], lets := [] }) →
      L.KeptScope (bs ++ s.scope) → ∃ os : List String, (∀ o ∈ os, o ∈ parameters.map (·.name)) ∧
        Comes L (N.states (parameters.map (·.name) ++ ns)) { s with scope := bs ++ s.scope, opened := os, lets := [] }
          (compileBody { s with scope := bs ++ s.scope, opened := [], lets := [] })
          fun es t => (∀ e ∈ es, L.Good e) ∧ ∀ k ∈ ks, N.Post k t) :
    (lambda c a parameters compileBody typed dates).Holds L (N.states ns) fun e t =>
      L.Textless e ∧ N.PostIn (parameters.map (·.name)) ks t := by
  intro s hs
  obtain ⟨bs, r, hps, hbs, htold, hnames⟩ := bindParameters_run _ c parameters typed dates
    { s with opened := [], lets := [] } hdates
  cases r with
  | error f =>
    have hrun : lambda c a parameters compileBody typed dates s = (.error f, s) := by
      unfold lambda
      rw [bind_run]
      simp only [ExprM.inner]
      rw [bind_run, hps]
    unfold Meets
    rw [hrun]
    exact ⟨hs, (N.states ns).refl s, (fun _ he => by cases he), throws_error (htold f rfl)⟩
  | ok ps =>
    obtain ⟨hown, hscope⟩ := hnames ps rfl
    obtain ⟨os, hos, hcomes⟩ := hbody s ps bs hps (forall_mem_append.2 ⟨hbs, hs⟩)
    have hinner := N.inner (fun x => by rw [hscope, mem_reverse]) hos hcomes.step
    unfold Meets
    rw [lambda_run hps]
    rcases hrun : compileBody { s with scope := bs ++ s.scope, opened := [], lets := [] } with ⟨f | body, t⟩ <;>
      rw [hrun] at hcomes hinner
    · exact ⟨hs, hinner.1, (fun _ he => by cases he), throws_error (hcomes.told f rfl)⟩
    · dsimp only
      split
      · exact ⟨hs, hinner.1, (fun _ he => by cases he), told_failAt _ _ rfl⟩
      · obtain ⟨hgood, hposts⟩ := hcomes.post body rfl
        obtain ⟨hstep, hpost⟩ := hinner.2 (ps.map (·.name) ++ t.lets) (fun x => by rw [mem_append, hown]) _ rfl
        have hserial := (N.states ns).serial { s with
          warnings := t.warnings, serial := t.serial, opened := s.opened ++ capturedNames ps t }
        refine ⟨hs, (N.states ns).trans hstep hserial, ?_, throws_ok _⟩
        rintro _ ⟨⟩
        exact ⟨ExprLaws.good_lambda hgood, N.postIn_mono hserial (hpost ks hposts)⟩

theorem lambda_builds {parameters : List NodeAttrs}
    (h : compileBody.Holds L (N.states (parameters.map (·.name) ++ ns)) fun es t =>
      (∀ e ∈ es, L.Good e) ∧ ∀ k ∈ ks, N.Post k t) (B : List Typed → Prop) :
    Builds L (N.states ns) B (N.PostIn (parameters.map (·.name)) ks) (lambda c a parameters compileBody) :=
  fun _ _ _ hdates => lambda_holds hdates fun _ _ _ _ hscope => ⟨[], forall_mem_nil _, h _ hscope⟩

/-- The variable of a mapped property is one value, whether its type can be named or is
that of the values. -/
theorem mapVariable_one {typed : Option Typed} (htyped : ∀ t ∈ typed, t.2 = .one) (h : lambdaParameter c
      { tag := Node.variableTag, name := mapVariable, className := receiver.path,
        bounds := some { lower := 1, upper := some 1 }, span } typed = .ok p) :
    p.name = mapVariable ∧ p.multiplicity = .one := by
  unfold lambdaParameter at h
  split at h
  · obtain ⟨type, -, h⟩ := bind_eq_ok.1 h
    cases h
    exact ⟨rfl, rfl⟩
  · split at h
    · cases h
      exact ⟨rfl, htyped _ rfl⟩
    · cases h

theorem mapped_builds {compileGiven : ExprM (List Expr)}
    (hgiven : compileGiven.Holds L (N.states (mapVariable :: ns)) fun es t =>
      (∀ e ∈ es, L.Good e) ∧ ∀ k ∈ ks, N.Post k t) :
    Builds L (N.states ns) (fun typed => ∀ t ∈ typed.head?, t.2 = .one) (N.PostIn [mapVariable] ks)
      (mapped c a receiver compileGiven) := by
  intro typed dates htyped hdates
  refine lambda_holds hdates fun s ps bs hps hscope => ⟨[mapVariable], forall_mem_singleton.2 (.head _), ?_⟩
  -- The variable is the innermost one when the body is compiled.
  obtain ⟨b, rfl, hname, hone⟩ : ∃ b, bs = [b] ∧ b.param.name = mapVariable ∧ b.param.multiplicity = .one := by
    unfold bindParameters at hps
    rcases hp : lambdaParameter c
      { tag := Node.variableTag, name := mapVariable, className := receiver.path,
        bounds := some { lower := 1, upper := some 1 } } typed.head? with f | p
    · simp only [hp] at hps
      cases hps
    · simp only [hp] at hps
      have hbs := congrArg (fun r : Result (List Param) × ExprState => r.2.scope) hps
      exact ⟨_, (append_cancel_right hbs : [_] = bs).symm, mapVariable_one htyped hp⟩
  have hvar : variableExpr c { name := mapVariable } { s with scope := [b] ++ s.scope, opened := [], lets := [] } =
      (.ok (.var { type := b.param.type, multiplicity := b.param.multiplicity } mapVariable),
        { s with scope := [b] ++ s.scope, opened := [mapVariable], lets := [] }) := by
    have hlook : Scope.lookup? ([b] ++ s.scope) mapVariable = some b := by simp [Scope.lookup?, hname]
    show (scope >>= _) _ = _
    rw [bind_run]
    simp only [scope, hlook]
    rfl
  replace hone : (Expr.var { type := b.param.type, multiplicity := b.param.multiplicity } mapVariable).multiplicity =
    .one := hone
  rw [bind_run, hvar]
  refine (hgiven _ hscope).bind fun given t _ ht hg => ?_
  have hselect := select_holds (S := N.states (mapVariable :: ns)) a.property a.span hone
    (forall_mem_cons.2 ⟨ExprLaws.good_var _ _, hg.1⟩) t ht
  refine (hselect.mono fun e u hu he => And.intro he fun k hk => N.post_mono hu (hg.2 k hk)).bind fun e u _ hu he => ?_
  exact meets_pure hu ⟨forall_mem_singleton.2 he.1.1, he.2⟩

end Expression

/-! ### Constants -/

theorem Literal.plain_of_value? {j : Json} {v : Value} (h : value? tag j = some v) : v.Plain := by
  unfold value? integer? float? decimal? boolean? at h
  repeat' split at h
  all_goals
    simp only [Option.map_eq_some_iff, Option.some.injEq, reduceCtorEq] at h <;> grind [Value.Plain]

theorem Literal.plain_of_values : ∀ {js : List Json} {vs : List Value}, values tag js = .ok vs → ∀ v ∈ vs, v.Plain
  | [], vs, h => by
    cases h
    exact forall_mem_nil _
  | j :: js, vs, h => by
    unfold values at h
    split at h
    · cases h
    · rename_i v hv
      obtain ⟨rest, hrest, rfl⟩ : ∃ rest, values tag js = .ok rest ∧ v :: rest = vs := by
        rcases hr : values tag js with f | rest <;> rw [hr] at h <;> cases h
        exact ⟨rest, rfl, rfl⟩
      exact forall_mem_cons.2 ⟨plain_of_value? hv, plain_of_values hrest⟩

theorem Literal.compile_eq (h : compile a = .ok e) : ∃ i vs, e = .instances i vs ∧ ∀ v ∈ vs, v.Plain := by
  unfold compile at h
  dsimp only at h
  split at h
  · cases h
  · rename_i hvs
    cases h
    exact ⟨_, _, rfl, plain_of_values hvs⟩

namespace Expression

variable {c : Context} {L : ExprLaws c} {S : StateLaws}

theorem element_gives (a : NodeAttrs) :
    (element c a).Gives L S fun e => L.Good e ∧ ∀ x, e.text? = some x → a.path = x := by
  unfold element
  split
  · exact gives_pure ⟨ExprLaws.good_constant trivial, fun _ => Option.some.inj⟩
  · refine (gives_ofResult (c.resolveElement_told _ _) fun _ h => h).bind fun e _ => ?_
    exact gives_freshSerial.bind fun _ _ => gives_pure ⟨ExprLaws.good_constant trivial, nofun⟩

theorem enumValue_told (c : Context) (a : NodeAttrs) : Result.Told (enumValue c a) := by
  unfold enumValue
  split
  · exact told_failAt _ _ rfl
  · exact (c.resolve_told _ _ _).bind fun e => (Context.enumValue_told e _ _).bind fun _ => throws_ok _

theorem enumValue_good (h : enumValue c a = .ok e) : L.Textless e := by
  unfold enumValue at h
  split at h
  · cases h
  · obtain ⟨x, -, h⟩ := bind_eq_ok.1 h
    obtain ⟨v, -, h⟩ := bind_eq_ok.1 h
    cases h
    exact ⟨ExprLaws.good_constant trivial, rfl⟩

theorem text?_collect {items : List Expr} {x : String} (h : (collect c a items).text? = some x) :
    ∃ e, items = [e] ∧ e.text? = some x := by
  rcases items with _ | ⟨e, _ | ⟨_, _⟩⟩
  · cases h
  · refine ⟨e, rfl, ?_⟩
    cases e with
    | instances i vs =>
      rcases vs with _ | ⟨v, _ | ⟨_, _⟩⟩
      · cases h
      · cases v <;> exact h
      · cases h
    | var => cases h
    | lambda => cases h
    | call => cases h
  · simp [collect, Expr.text?] at h

theorem branchClass_told (a : NodeAttrs) (raw : RawType) (subType : Option TypeRef) :
    Result.Told (branchClass a raw subType) := by
  unfold branchClass
  split
  · exact throws_ok _
  · exact told_failAt _ _ rfl

/-! ### All expressions -/

theorem form_of_isLambda (h : n.isLambda = true) : n.attrs.form = .lambda := by
  have htag : n.attrs.tag = Node.lambdaTag := of_decide_eq_true h
  unfold NodeAttrs.form
  rw [htag]
  rfl

/-- An argument of a call as a lambda to be compiled later, if it is one. -/
def builder? (c : Context) : Node → Option LambdaBuilder
  | .mk a parameters body values subTrees =>
    if Node.isLambda (.mk a parameters body values subTrees) then
      some (lambda c a (parameters.map (·.attrs)) (compileAll c body))
    else none

theorem lambdaBuilders_eq (c : Context) (ns : List Node) : lambdaBuilders c ns = ns.map (builder? c) := by
  induction ns with
  | nil => rw [lambdaBuilders, map_nil]
  | cons n ns ih =>
    cases n
    rw [lambdaBuilders, ih]
    rfl

section Lambda

variable {N : NodeLaws c} {a : NodeAttrs} {parameters body values subTrees : List Node} {ns : List String}

theorem binds_lambda (hform : a.form = .lambda) :
    Node.binds (.mk a parameters body values subTrees) = (parameters.map (·.attrs)).map (·.name) := by
  rw [Node.binds, if_pos hform, map_map]
  rfl

theorem permits_lambdaBody (hn : N.Permits ns (.mk a parameters body values subTrees)) (hform : a.form = .lambda) :
    ∀ k ∈ body, N.Permits ((parameters.map (·.attrs)).map (·.name) ++ ns) k := by
  intro k hk
  rw [← binds_lambda hform]
  exact N.below hn (by simpa only [Node.inside, hform] using hk)

theorem lambdaNode_builds (values subTrees : List Node) (hform : a.form = .lambda)
    (hbody : (compileAll c body).Holds L (N.states ((parameters.map (·.attrs)).map (·.name) ++ ns)) fun es t =>
      (∀ e ∈ es, L.Good e) ∧ ∀ k ∈ body, N.Post k t) :
    Builds L (N.states ns) (fun _ => True) (N.Post (.mk a parameters body values subTrees))
      (lambda c a (parameters.map (·.attrs)) (compileAll c body)) := by
  intro typed dates hB hdates s hs
  refine (lambda_builds hbody (fun _ => True) typed dates hB hdates s hs).mono fun e t _ he => ⟨he.1, ?_⟩
  refine N.post_lambda hform ?_
  rw [binds_lambda hform]
  exact he.2

end Lambda

/-- A branch of a graph fetch tree, once its arguments, its member and its subtype are known. -/
def finishBranch (c : Context) (a : NodeAttrs) (args : List Expr) (found : Member) (subTrees : List Node)
    (subType : Option TypeRef) : ExprM FetchBranch := do
  let branches ← if subTrees.isEmpty then pure []
    else do
      let next ← .ofResult (branchClass a found.type.raw subType)
      compileBranches c subTrees next
  return .mk found.callee
    { type := .ofRef Library.propertyTreeClass, multiplicity := found.multiplicity, span := a.span }
    args a.aliasName (subType.map (·.path)) branches

theorem finishBranch_meets {N : NodeLaws c} {found : Member} {subTrees : List Node}
    {ns : List String} {subType : Option TypeRef} {v : ExprState} (hargs : ∀ e ∈ args, L.Good e)
    (hbranches : ∀ next, (compileBranches c subTrees next).Holds L (N.states ns) fun bs u =>
      (∀ b ∈ bs, ∀ e ∈ b.arguments, L.Good e) ∧ ∀ k ∈ subTrees, N.Post k u)
    (hpost : ∀ w, (N.states ns).Step v w → (∀ k ∈ subTrees, N.Post k w) → N.Post n w) (hv : L.KeptScope v.scope) :
    Meets (finishBranch c a args found subTrees subType) L (N.states ns) v
      fun b u => (∀ e ∈ b.arguments, L.Good e) ∧ N.Post n u := by
  have whole {branches : List FetchBranch} {w : ExprState} (hw : L.KeptScope w.scope) (hvw : (N.states ns).Step v w)
      (hb : (∀ b ∈ branches, ∀ e ∈ b.arguments, L.Good e) ∧ ∀ k ∈ subTrees, N.Post k w) :
      Meets (pure (FetchBranch.mk found.callee
        { type := .ofRef propertyTreeClass, multiplicity := found.multiplicity, span := a.span }
        args a.aliasName (subType.map (·.path)) branches)) L (N.states ns) w
      fun b u => (∀ e ∈ b.arguments, L.Good e) ∧ N.Post n u := by
    refine meets_pure hw ⟨?_, hpost w hvw hb.2⟩
    rw [FetchBranch.arguments]
    exact forall_mem_append.2 ⟨hargs, FetchBranch.forall_mem_argumentsOfAll.2 hb.1⟩
  unfold finishBranch
  split
  · rename_i hempty
    rw [List.isEmpty_iff.1 hempty] at whole
    exact Meets.bind (P := fun bs w => bs = [] ∧ w = v) (meets_pure hv ⟨rfl, rfl⟩) fun branches w _ hw h =>
      whole hw (h.2 ▸ (N.states ns).refl v) ⟨by rw [h.1]; exact forall_mem_nil _, forall_mem_nil _⟩
  · refine Meets.bind (P := fun _ w => w = v) ?_ fun next w _ hw h => ?_
    · exact ⟨hv, (N.states ns).refl v, fun _ _ => rfl, branchClass_told a found.type.raw subType⟩
    · subst h
      exact ((hbranches next w hw).mono fun bs w hvw hb => And.intro hvw hb).bind fun branches w _ hw hb =>
        whole hw hb.1 hb.2

section

variable (L) (N : NodeLaws c)

mutual

theorem compile_holds : ∀ (n : Node) (ns : List String), N.Permits ns n →
    (compile c n).Holds L (N.states ns) fun e t => L.Good e ∧ N.Post n t ∧ n.Tells e
  | .mk a parameters body values subTrees, ns, hn => by
    have below : ∀ k ∈ Node.inside c (.mk a parameters body values subTrees),
        N.Permits (Node.binds (.mk a parameters body values subTrees) ++ ns) k := fun k => N.below hn
    have mappedBelow : ∀ k ∈ Node.inside c (.mk a parameters body values subTrees),
        N.Permits (Node.binds (.mk a parameters body values subTrees) ++ mapVariable :: ns) k :=
      fun k => N.below (N.mapped hn)
    have hpost {t : ExprState} (hform : [.lambda, .var, .call].contains a.form = false)
        (h : ∀ k ∈ Node.inside c (.mk a parameters body values subTrees), N.Post k t) :
        N.Post (.mk a parameters body values subTrees) t := by
      have hne (f : NodeForm) (hf : [.lambda, .var, .call].contains f = true) (h : a.form = f) : False := by
        rw [h, hf] at hform
        cases hform
      exact N.post (hne .lambda rfl) (fun h => (hne .var rfl h).elim) (fun h => (hne .call rfl h).elim) h
    have htells {e : Expr} (h : e.text? = none) : Node.Tells (.mk a parameters body values subTrees) e := fun x hx => by
      cases h.symm.trans hx
    have leaf {x : ExprM Expr} (hform : [.lambda, .var, .call].contains a.form = false)
        (hinside : Node.inside c (.mk a parameters body values subTrees) = [])
        (hx : x.Gives L (N.states ns) L.Textless) : x.Holds L (N.states ns) fun e t =>
          L.Good e ∧ N.Post (.mk a parameters body values subTrees) t ∧ Node.Tells (.mk a parameters body values subTrees) e :=
      fun s hs => (hx s hs).mono fun e t _ he =>
        ⟨he.1, hpost hform (by rw [hinside]; exact forall_mem_nil _), htells he.2⟩
    unfold compile
    simp only [Node.inside, Node.binds] at below mappedBelow hpost leaf
    generalize hform : a.form = form at below mappedBelow hpost leaf ⊢
    cases form with
    | literal =>
      have hliteral := gives_ofResult (L := L) (S := N.states ns) (Literal.compile_told a) fun e he => he
      refine fun s hs => (hliteral s hs).mono fun e t _ he => ?_
      obtain ⟨i, vs, hvs, hplain⟩ := Literal.compile_eq he
      exact ⟨hvs ▸ ExprLaws.good_plain hplain, hpost rfl (forall_mem_nil _), fun x hx => .literal hform he hx⟩
    | var =>
      have hvar := variableExpr_holds (L := L) (fun s b h hb => N.reads hn hform h hb)
        fun s p h hp => N.types hn hform h hp
      refine fun s hs => (hvar s hs).mono fun e t _ he =>
        ⟨he.1.1, N.post (by rw [Node.attrs, hform]; nofun) (fun _ => he.2) (by rw [Node.attrs, hform]; nofun) ?_,
          htells he.1.2⟩
      simp [Node.inside, hform]
    | call =>
      refine (compileArguments_holds parameters ns below).bind fun args t ht hargs => ?_
      rw [lambdaBuilders_eq]
      refine (dispatch_holds (B := fun _ => True) (Q := fun b t => ∀ k ∈ parameters, builder? c k = some b → N.Post k t)
        (fun b s t hstep h k hk hb => N.post_mono hstep (h k hk hb)) hargs.2.2.1 (fun b hb => ?_) hargs.1
        (N.calls hn hform hargs.2.2.2) (fun _ _ _ _ _ => trivial) t ht).mono fun e u hu he =>
          ⟨he.1.1.1, N.post (by rw [Node.attrs, hform]; nofun) (by rw [Node.attrs, hform]; nofun) (fun _ => he.1.2) ?_,
            htells he.1.1.2⟩
      · -- The same run does what each node with this lambda asks.
        obtain ⟨k, hk, hb⟩ := mem_map.1 hb
        intro typed dates hB hdates s hs
        have hbuild (k : Node) (hk : k ∈ parameters) (hb : builder? c k = some b) :=
          lambdaBuilders_build parameters ns below k hk b hb typed dates hB hdates s hs
        have h := hbuild k hk hb
        exact ⟨h.scope, h.step, fun e he => ⟨(h.post e he).1, fun k hk hb => ((hbuild k hk hb).post e he).2⟩, h.told⟩
      · simp only [Node.inside, hform]
        intro k hk
        rcases hb : builder? c k with _ | b
        · exact N.post_mono hu (hargs.2.1 k hk hb)
        · exact he.2 b (mem_map.2 ⟨k, hk, hb⟩) k hk hb
    | property =>
      cases parameters with
      | nil => exact holds_fail rfl
      | cons r rest =>
        simp only [head?_cons, Option.bind_some] at below mappedBelow hpost leaf
        dsimp only
        rcases henum : enumReceiver? c r.attrs with _ | x
        · simp only [henum] at below mappedBelow hpost
          obtain ⟨hr, below⟩ := forall_mem_cons.1 below
          refine (compile_holds r ns hr).bind fun receiver t ht hr => ?_
          split
          · rename_i hone
            have hgiven := (compileAll_holds rest ns below t ht).mono fun es u hu hes =>
              And.intro hes (N.post_mono hu hr.2.1)
            refine hgiven.bind fun given u _ hu hg => ?_
            have hposts : ∀ k ∈ r :: rest, N.Post k u := forall_mem_cons.2 ⟨hg.2, hg.1.2⟩
            exact (select_holds _ _ (of_decide_eq_true hone) (forall_mem_cons.2 ⟨hr.1, hg.1.1⟩) u hu).mono
              fun e v hv he => ⟨he.1, hpost rfl fun k hk => N.post_mono hv (hposts k hk), htells he.2⟩
          · have hgiven := compileAll_holds rest (mapVariable :: ns) (forall_mem_cons.1 mappedBelow).2
            refine (dispatch_holds (B := fun typed => ∀ t ∈ typed.head?, t.2 = .one) (fun _ _ _ hstep h => N.postIn_mono hstep h)
              ?_ ?_ ?_ ((N.states ns).calls_map c a.span _) (fun fs hfs f hf i => candidates_map hfs _ i f hf) t ht).mono
              fun e u hu he => ⟨he.1.1.1, N.post_mapped hform (N.post_mono hu hr.2.1)
                (he.2 _ (.tail _ (.head _))), htells he.1.1.2⟩
            · simp
            · simpa using mapped_builds hgiven
            · simpa using hr.1
        · simp only [henum, Option.isSome_some, if_true] at leaf
          exact leaf rfl trivial
            (gives_ofResult (Navigation.enumValue_told _ _ _ _) fun e he => ExprLaws.good_enum he)
    | lambda =>
      have hbody := compileAll_holds body _ (permits_lambdaBody hn hform)
      have hlambda := lambdaNode_builds values subTrees hform hbody [] none trivial keptDates_none
      exact fun s hs => (hlambda s hs).mono fun e t _ he => ⟨he.1.1, he.2, htells he.1.2⟩
    | collection =>
      refine (compileItems_holds values ns below).bind fun items t ht hitems => ?_
      refine meets_pure ht ⟨ExprLaws.good_collect hitems.1, hpost rfl hitems.2.1, fun x hx => ?_⟩
      obtain ⟨e, rfl, he⟩ := text?_collect hx
      obtain ⟨v, vs, hv, hnil, hvs⟩ := forall₂_cons_right_iff.1 hitems.2.2
      rw [hvs, forall₂_nil_right_iff.1 hnil]
      exact .collection hform (hv x he)
    | element =>
      refine fun s hs => (element_gives a s hs).mono fun e t _ he => ⟨he.1, hpost rfl (forall_mem_nil _), ?_⟩
      exact fun x hx => .package hform (he.2 x hx)
    | enumValue => exact leaf rfl rfl (gives_ofResult (enumValue_told c a) fun e he => enumValue_good he)
    | tree =>
      refine (gives_ofResult (c.resolveClass_told _ _) fun _ h => h).bind fun t _ => ?_
      refine (compileBranches_holds subTrees ns below t).bind fun branches u hu hb => ?_
      exact meets_pure hu ⟨(ExprLaws.good_tree hb.1).1, hpost rfl hb.2, htells rfl⟩
    | branch => exact holds_fail rfl
    | classInstance => exact holds_error (told_unsupported _)
    | unknown => exact holds_error (told_unsupported _)

theorem compileAll_holds : ∀ (ks : List Node) (ns : List String),
    (∀ k ∈ ks, N.Permits ns k) →
    (compileAll c ks).Holds L (N.states ns) fun es t => (∀ e ∈ es, L.Good e) ∧ ∀ k ∈ ks, N.Post k t
  | [], ns, _ => by
    exact fun s hs => meets_pure hs ⟨forall_mem_nil _, forall_mem_nil _⟩
  | k :: ks, ns, h => by
    obtain ⟨hk, hks⟩ := forall_mem_cons.1 h
    unfold compileAll
    refine (compile_holds k ns hk).bind fun e t ht he => ?_
    refine ((compileAll_holds ks ns hks t ht).mono fun es u hu hes => And.intro hes (N.post_mono hu he.2.1)).bind
      fun es u _ hu hes => ?_
    exact meets_pure hu ⟨forall_mem_cons.2 ⟨he.1, hes.1.1⟩, forall_mem_cons.2 ⟨hes.2, hes.1.2⟩⟩

theorem compileItems_holds : ∀ (ks : List Node) (ns : List String),
    (∀ k ∈ ks, N.Permits ns k) →
    (compileItems c ks).Holds L (N.states ns) fun es t =>
      (∀ e ∈ es, L.Good e) ∧ (∀ k ∈ ks, N.Post k t) ∧ Forall₂ Node.Tells ks es
  | [], ns, _ => by
    exact fun s hs => meets_pure hs ⟨forall_mem_nil _, forall_mem_nil _, .nil⟩
  | k :: ks, ns, h => by
    obtain ⟨hk, hks⟩ := forall_mem_cons.1 h
    unfold compileItems
    refine (compile_holds k ns hk).bind fun e t ht he => ?_
    split
    · refine ((compileItems_holds ks ns hks t ht).mono fun es u hu hes => And.intro hes (N.post_mono hu he.2.1)).bind
        fun es u _ hu hes => meets_pure hu ⟨forall_mem_cons.2 ⟨he.1, hes.1.1⟩, ?_⟩
      exact ⟨forall_mem_cons.2 ⟨hes.2, hes.1.2.1⟩, .cons he.2.2 hes.1.2.2⟩
    · exact holds_fail rfl t ht

theorem compileArguments_holds : ∀ (ks : List Node) (ns : List String),
    (∀ k ∈ ks, N.Permits ns k) →
    (compileArguments c ks).Holds L (N.states ns) fun es t => (∀ e, some e ∈ es → L.Good e) ∧
      (∀ k ∈ ks, builder? c k = none → N.Post k t) ∧
      Forall₂ (fun b a => b = none → a ≠ none) (ks.map (builder? c)) es ∧
      ∀ x, firstText es = some x → ∃ k, ks.head? = some k ∧ k.IsText x
  | [], ns, _ => by
    exact fun s hs => meets_pure hs ⟨fun _ h => absurd h not_mem_nil, forall_mem_nil _, .nil, nofun⟩
  | k :: ks, ns, h => by
    obtain ⟨hk, hks⟩ := forall_mem_cons.1 h
    unfold compileArguments
    split
    · rename_i hlambda
      have hb : builder? c k ≠ none := by
        obtain ⟨a, parameters, body, values, subTrees⟩ := k
        simp [builder?, hlambda]
      refine (compileArguments_holds ks ns hks).bind fun es t ht hes => meets_pure ht ⟨by simpa using hes.1, ?_, ?_, nofun⟩
      · exact forall_mem_cons.2 ⟨fun h => absurd h hb, hes.2.1⟩
      · exact .cons (fun h => absurd h hb) hes.2.2.1
    · refine (compile_holds k ns hk).bind fun e t ht he => ?_
      refine ((compileArguments_holds ks ns hks t ht).mono fun es u hu hes =>
        And.intro hes (N.post_mono hu he.2.1)).bind fun es u _ hu hes => meets_pure hu ⟨fun x hx => ?_,
          forall_mem_cons.2 ⟨fun _ => hes.2, hes.1.2.1⟩, .cons (fun _ => Option.some_ne_none e) hes.1.2.2.1,
          fun x hx => ⟨k, rfl, he.2.2 x hx⟩⟩
      rcases mem_cons.1 hx with hx | hx
      · cases hx
        exact he.1
      · exact hes.1.1 x hx

theorem lambdaBuilders_build : ∀ (ks : List Node) (ns : List String),
    (∀ k ∈ ks, N.Permits ns k) → ∀ k ∈ ks, ∀ b, builder? c k = some b →
      Builds L (N.states ns) (fun _ => True) (N.Post k) b
  | [], ns, _ => forall_mem_nil _
  | .mk a parameters body values subTrees :: ks, ns, h => by
    obtain ⟨hk, hks⟩ := forall_mem_cons.1 h
    refine forall_mem_cons.2 ⟨fun b hb => ?_, lambdaBuilders_build ks ns hks⟩
    rw [builder?, Option.ite_none_right_eq_some] at hb
    obtain ⟨hlambda, hb⟩ := hb
    cases hb
    have hform := form_of_isLambda hlambda
    exact lambdaNode_builds values subTrees hform (compileAll_holds body _ (permits_lambdaBody hk hform))

theorem compileBranch_holds : ∀ (n : Node) (ns : List String) (t : TypeRef),
    N.Permits ns n →
    (compileBranch c n t).Holds L (N.states ns) fun b u => (∀ e ∈ b.arguments, L.Good e) ∧ N.Post n u
  | .mk a parameters body values subTrees, ns, t, hn => by
    unfold compileBranch
    split
    · exact holds_fail rfl
    rename_i hform
    replace hform : a.form = .branch := by
      revert hform
      cases a.form <;> decide
    have hinside : Node.inside c (.mk a parameters body values subTrees) = parameters ++ subTrees := by
      simp only [Node.inside, hform]
    have below : ∀ k ∈ parameters ++ subTrees, N.Permits ns k := fun k hk => by
      have h := N.below hn (hinside ▸ hk)
      rwa [Node.binds, hform] at h
    obtain ⟨hparameters, hsubTrees⟩ := forall_mem_append.1 below
    refine Holds.bind ((compileAll_holds parameters ns hparameters).within (fun _ _ => N.branches hn hform rfl)
      fun _ _ scope h => ⟨h.1, fun k hk => N.post_scope scope (h.2 k hk)⟩) fun args u hu hargs => ?_
    refine Meets.bind (P := fun _ v => ∀ k ∈ parameters, N.Post k v) ?_ fun found v _ hv hposts => ?_
    · exact (gives_ofResult (c.model.member_told _ _ _ _) fun _ _ => trivial) u hu |>.mono
        fun _ v hv _ k hk => N.post_mono hv (hargs.2 k hk)
    have rest (subType : Option TypeRef) {v : ExprState} (hv : L.KeptScope v.scope)
        (hposts : ∀ k ∈ parameters, N.Post k v) : Meets (finishBranch c a args found subTrees subType) L (N.states ns) v
          fun b u => (∀ e ∈ b.arguments, L.Good e) ∧ N.Post (.mk a parameters body values subTrees) u := by
      refine finishBranch_meets hargs.1 (compileBranches_holds subTrees ns hsubTrees) (fun w hvw hw => ?_) hv
      refine N.post (by rw [Node.attrs, hform]; nofun) (by rw [Node.attrs, hform]; nofun)
        (by rw [Node.attrs, hform]; nofun) ?_
      rw [hinside]
      exact forall_mem_append.2 ⟨fun k hk => N.post_mono hvw (hposts k hk), hw⟩
    by_cases hsub : a.subType = ""
    · simp only [hsub]
      exact rest none hv hposts
    · simp only [hsub]
      have hclass := (gives_ofResult (L := L) (S := N.states ns) (c.resolveClass_told a.subType a.span) fun _ h => h).bind
        fun t _ => gives_pure (a := some t) (R := fun _ => True) trivial
      exact ((hclass v hv).mono fun _ w hw _ k hk => N.post_mono hw (hposts k hk)).bind fun subType w _ hw h =>
        rest subType hw h

theorem compileBranches_holds : ∀ (ks : List Node) (ns : List String),
    (∀ k ∈ ks, N.Permits ns k) → ∀ t : TypeRef, (compileBranches c ks t).Holds L (N.states ns) fun bs u =>
      (∀ b ∈ bs, ∀ e ∈ b.arguments, L.Good e) ∧ ∀ k ∈ ks, N.Post k u
  | [], ns, _, t => by
    exact fun s hs => meets_pure hs ⟨forall_mem_nil _, forall_mem_nil _⟩
  | k :: ks, ns, h, t => by
    obtain ⟨hk, hks⟩ := forall_mem_cons.1 h
    unfold compileBranches
    refine (compileBranch_holds k ns t hk).bind fun b u hu hb => ?_
    refine ((compileBranches_holds ks ns hks t u hu).mono fun bs v hv hbs =>
      And.intro hbs (N.post_mono hv hb.2)).bind fun bs v _ hv hbs => ?_
    exact meets_pure hv ⟨forall_mem_cons.2 ⟨hb.1, hbs.1.1⟩, forall_mem_cons.2 ⟨hbs.2, hbs.1.2⟩⟩

end

theorem lambda_compileAll_holds {parameters : List NodeAttrs}
    {body : List Node} (ns : List String) (h : ∀ n ∈ body, N.Permits (parameters.map (·.name) ++ ns) n)
    (hdates : KeptDates L.Good dates) :
    (lambda c a parameters (compileAll c body) typed dates).Holds L (N.states ns) fun e t =>
      L.Textless e ∧ N.PostIn (parameters.map (·.name)) body t :=
  lambda_builds (compileAll_holds L N body _ h) (fun _ => True) typed dates trivial hdates

end

end Expression

/-! ### Sound expressions -/

theorem Library.parameters_extractEnumValue : ∀ g ∈ nativesCalled "extractEnumValue",
    g.2.parameters = [one enumerationClass, one string] := by
  decide +kernel

theorem Navigation.enumValue_allowed {e : Element} {enumSpan : Span} {x : Expr}
    (h : enumValue e name enumSpan span = .ok x) : m.Allows x := by
  obtain ⟨v, hv, h⟩ := bind_eq_ok.1 h
  split at h
  · cases h
  · rename_i package n _ hn
    cases h
    have hmem : (package, n) ∈ nativesCalled "extractEnumValue" := hn ▸ (.head _)
    have hraw : (classifier 0 e).raw = .named enumerationClass := by
      unfold Context.enumValue enumValues at hv
      unfold classifier
      split at hv
      · rename_i he
        split at he
        · rename_i hc
          rw [hc]
          rfl
        · cases he
      · cases hv
    have htakes : m.Takes (Path.join package n.elementName)
        [(.ofRef enumerationClass, .one), (.ofRef string, .one)] := by
      have hps : n.parameters = [one enumerationClass, one string] :=
        parameters_extractEnumValue _ hmem
      exact ⟨_, .inr (mem_natives hmem), rfl,
        by simp [Element.parameters?, Native.element, hps, one]⟩
    refine ⟨_, htakes, .cons ⟨?_, rfl⟩ (.cons ⟨?_, rfl⟩ .nil)⟩
    · show m.isSubType (classifier 0 e).raw _ = true
      rw [hraw]
      simp [isSubType, RawType.same, GenericType.ofRef, GenericType.raw]
    · simp [isSubType, RawType.same, GenericType.ofRef, GenericType.raw, Expr.raw, Expr.type,
        Expr.info, Expr.constant]

def Model.SoundScope (m : Model) (s : Scope) : Prop := ∀ b ∈ s, m.SoundDates b.dates

theorem Model.SoundScope.cons {b : Binding} {s : Scope} (hb : m.SoundDates b.dates) (hs : m.SoundScope s) : m.SoundScope (b :: s) := forall_mem_cons.2 ⟨hb, hs⟩

def ExprLaws.sound (c : Context) : ExprLaws c where
  Asks := c.model.Allows
  asks_instances _ _ := trivial
  asks_var _ _ := trivial
  asks_lambda _ _ _ _ := trivial
  asks_enum := enumValue_allowed
  asks_call hf hfit := by
    obtain ⟨path, hcallee, htakes⟩ := hf
    rw [hcallee]
    exact ⟨_, htakes, Candidate.forall₂_of_fitAll hfit⟩
  asks_apply {_ _ _ _ found receiver _ _ _} ht hone _ := by
    cases found <;> exact ⟨receiver, rfl, by rw [ht]; rfl, hone⟩

namespace ExprM

/-- In a scope with sound dates, `P` holds of what the compilation gives. -/
def Keeps {α : Type} (x : ExprM α) (m : Model) (P : α → Prop) : Prop :=
  ∀ s, m.SoundScope s.scope → ∀ a, (x s).1 = .ok a → P a

theorem Keeps.mono {α : Type} {P Q : α → Prop} {x : ExprM α} (h : x.Keeps m P) (hq : ∀ a, P a → Q a) :
    x.Keeps m Q := fun s hs a ha => hq a (h s hs a ha)

end ExprM

theorem Model.thisBinding_sound (t : TypeRef) : m.SoundDates (thisBinding m t).dates :=
  thisBinding_kept (ExprLaws.sound (Context.of m "")) t

namespace Expression

theorem compile_keeps (c : Context) (n : Node) : (compile c n).Keeps c.model c.model.Sound :=
  fun s hs e he => ((compile_holds (.sound c) (.none c) n [] trivial s hs).post e he).1

theorem compileAll_keeps (c : Context) (ns : List Node) :
    (compileAll c ns).Keeps c.model fun es => ∀ e ∈ es, c.model.Sound e :=
  fun s hs es hes => ((compileAll_holds (.sound c) (.none c) ns [] (fun _ _ => trivial) s hs).post es hes).1

theorem lambda_keeps (c : Context) (a : NodeAttrs) (parameters : List NodeAttrs) (body : List Node)
    (typed : List Typed) :
    (lambda c a parameters (compileAll c body) typed none).Keeps c.model c.model.Sound :=
  fun s hs e he => ((lambda_compileAll_holds (.sound c) (.none c) [] (fun _ _ => trivial)
    keptDates_none s hs).post e he).1.1

/-! ### Failures -/

theorem compile_told (c : Context) (n : Node) (s : ExprState) : Result.Told (compile c n s).1 :=
  (compile_holds (.none c) (.none c) n [] trivial s (ExprLaws.keptScope_none _)).told

theorem compileAll_told (c : Context) (ns : List Node) (s : ExprState) : Result.Told (compileAll c ns s).1 :=
  (compileAll_holds (.none c) (.none c) ns [] (fun _ _ => trivial) s (ExprLaws.keptScope_none _)).told

theorem lambda_told (c : Context) (a : NodeAttrs) (parameters : List NodeAttrs) (body : List Node)
    (typed : List Typed) (s : ExprState) : Result.Told (lambda c a parameters (compileAll c body) typed none s).1 :=
  (lambda_compileAll_holds (.none c) (.none c) [] (fun _ _ => trivial) keptDates_none s
    (ExprLaws.keptScope_none _)).told

end Expression

theorem Package.ensureFrom_isStage : ∀ (path done : List String) (p : Package α) {problem : Problem},
    (ensureFrom done p path).2 = some problem → problem.isStage = false
  | [], _, _, _, h => nomatch h
  | s :: rest, done, p, problem, h => by
    unfold ensureFrom at h
    split at h
    · split at h
      · cases h
        rfl
      · exact ensureFrom_isStage rest _ _ h
    · cases h
      rfl
    · exact ensureFrom_isStage rest _ _ h

namespace Build

theorem body_told (path : String) (ns : List Node) (scope : Scope) : Told (body path ns scope) :=
  throws_settle fun _ => Expression.compileAll_told _ ns _

theorem told_fail (span : Span) (problem : Problem) (h : problem.isStage = false) :
    Told (Build.fail span problem : Build α) := throws_fail (told_of _ _ h)

theorem fits_told (e : Expr) (declared : Typed) (stub : String) (span : Span) :
    Told (fits e declared stub span) := fun _ =>
  Result.throws_ite (told_failAt _ _ rfl) (Result.throws_ite (told_failAt _ _ rfl) (throws_ok _))

theorem register_told (header : Header) (content : ElementContent) (annotations : Annotations) :
    Told (Build.register header content annotations) := by
  refine fun m => Result.Throws.map ?_
  refine Result.throws_ite (told_failAt _ _ rfl) ?_
  split
  · rename_i problem hensure
    exact told_failAt _ _ (Package.ensureFrom_isStage _ _ _ (congrArg (·.2) hensure))
  · exact Result.throws_ite (told_failAt _ _ rfl) (throws_ok _)

end Build
end ModelGraph
