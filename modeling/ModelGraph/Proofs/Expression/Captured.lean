/-
# Captured variables

A lambda lists the names that it takes from outside. They are collected by name while its body is
compiled: every name that is looked up, less the parameters and whatever a let has bound. So a name
that a let binds is never listed, also where it was looked up before the let, and a name that is
declared with a type, or the receiver of a fetch tree, is listed like one from outside.

Key definitions: `Node.Reads`, `Node.Declares`.
Key theorems: `Expression.captured_exact`.
-/
import ModelGraph.Proofs.Model.Imports

namespace ModelGraph

open List

/-! ### Names in nodes -/

namespace Node

/-- A name is looked up in a node, and no lambda in it binds the name. -/
inductive Reads (c : Context) (x : String) : Node → Prop
  | var {n} : n.attrs.form = .var → n.attrs.typePath = "" → n.attrs.name = x → Reads c x n
  | inside {n k} : k ∈ n.inside c → x ∉ n.binds → Reads c x k → Reads c x n

/-- The node declares the name with a type, or is a branch of a fetch tree and declares its receiver. -/
def Declares (x : String) (n : Node) : Prop :=
  n.attrs.form = .var ∧ n.attrs.typePath ≠ "" ∧ n.attrs.name = x ∨ n.attrs.form = .branch ∧ x = "this"

/-- The node is a call that may bind the name as a let. -/
def Lets (c : Context) (x : String) (n : Node) : Prop :=
  n.attrs.form = .call ∧ (∃ k, n.parameters.head? = some k ∧ k.IsText x) ∧
    ∃ fs f, c.candidates (callName n.attrs.function n.attrs.control).1 n.attrs.span = .ok fs ∧ f ∈ fs ∧
      f.name = "letFunction"

end Node

section

variable (c : Context) (body : List Node) (x : String) {bs : List Binding}

/-- A name is looked up in a body, and no lambda in it binds the name. -/
def ReadIn : Prop := ∃ n ∈ body, n.Reads c x

/-- A body declares a name with a type, or as the receiver of a fetch tree. -/
def DeclaredIn : Prop := ∃ n : Node, n.In c body ∧ n.Declares x

/-- A body may bind a name as a let. -/
def LetIn : Prop := ∃ n : Node, n.In c body ∧ n.Lets c x

end

/-! ### States -/

theorem Scope.mem_names_append {s t : Scope} {x : String} :
    x ∈ names (s ++ t) ↔ x ∈ s.map (·.param.name) ∨ x ∈ t.names := by
  simp only [names, mem_distinct, map_append, mem_append]

section

variable (c : Context) (body : List Node) (ns : List String)

/-- A later state, below lambdas with the given parameters: variables came into scope by declarations and
lets in the body, and names in the body were looked up that were in scope by then. -/
structure Later (s t : ExprState) : Prop where
  scope : ∃ new, t.scope = new ++ s.scope ∧ ∀ x ∈ new.map (·.param.name), DeclaredIn c body x ∨ x ∈ t.lets
  lets : ∃ new, t.lets = s.lets ++ new ∧ ∀ x ∈ new, LetIn c body x
  opened : ∃ new, t.opened = s.opened ++ new ∧ ∀ x ∈ new, (x ∈ ns ∨ ReadIn c body x) ∧
    (x ∈ s.scope.names ∨ DeclaredIn c body x ∨ x ∈ t.lets)

/-- The node read nothing else, and is in the body. -/
def Node.Fits (n : Node) : Prop := (∀ x, n.Reads c x → x ∈ ns ∨ ReadIn c body x) ∧ n.In c body

/-- All that a node reads was looked up, unless a let may bind it. -/
def Node.Looked (n : Node) (t : ExprState) : Prop :=
  ∀ x, n.Reads c x → x ≠ Expression.mapVariable → x ∈ t.opened ∨ LetIn c body x

/-- All that the body of a lambda reads of what is not its own was looked up, unless a let may bind it. -/
def LookedIn (ps : List String) (ks : List Node) (t : ExprState) : Prop :=
  ∀ k ∈ ks, ∀ x, k.Reads c x → x ∉ ps → x ≠ Expression.mapVariable → x ∈ t.opened ∨ LetIn c body x

end

namespace Later

variable {c : Context} {body : List Node} {ns : List String} {s t u : ExprState}

theorem of_eq (hscope : t.scope = s.scope) (hlets : t.lets = s.lets) (hopened : t.opened = s.opened) :
    Later c body ns s t :=
  ⟨⟨[], hscope, forall_mem_nil _⟩, ⟨[], by simp [hlets], forall_mem_nil _⟩,
    ⟨[], by simp [hopened], forall_mem_nil _⟩⟩

section

variable (h : Later c body ns s t)
include h

theorem lets_subset {x : String} (hx : x ∈ s.lets) : x ∈ t.lets := by
  obtain ⟨new, hnew, -⟩ := h.lets
  rw [hnew]
  exact mem_append_left _ hx

theorem opened_subset {x : String} (hx : x ∈ s.opened) : x ∈ t.opened := by
  obtain ⟨new, hnew, -⟩ := h.opened
  rw [hnew]
  exact mem_append_left _ hx

theorem of_mem_names {x : String} (hx : x ∈ t.scope.names) :
    x ∈ s.scope.names ∨ DeclaredIn c body x ∨ x ∈ t.lets := by
  obtain ⟨new, hscope, hnew⟩ := h.scope
  rw [hscope, Scope.mem_names_append] at hx
  exact hx.elim (fun hx => .inr (hnew x hx)) .inl

theorem trans (k : Later c body ns t u) : Later c body ns s u := by
  obtain ⟨new, hscope, hnew⟩ := h.scope
  obtain ⟨new', hscope', hnew'⟩ := k.scope
  obtain ⟨ls, hlets, hls⟩ := h.lets
  obtain ⟨ls', hlets', hls'⟩ := k.lets
  obtain ⟨os, hopened, hos⟩ := h.opened
  obtain ⟨os', hopened', hos'⟩ := k.opened
  refine ⟨⟨new' ++ new, by rw [hscope', hscope, append_assoc], fun x hx => ?_⟩,
    ⟨ls ++ ls', by rw [hlets', hlets, append_assoc], forall_mem_append.2 ⟨hls, hls'⟩⟩,
    ⟨os ++ os', by rw [hopened', hopened, append_assoc], forall_mem_append.2 ⟨fun x hx => ?_, fun x hx => ?_⟩⟩⟩
  · rw [map_append, mem_append] at hx
    exact hx.elim (hnew' x) fun hx => (hnew x hx).imp_right k.lets_subset
  · exact (hos x hx).imp_right fun hx => hx.imp_right fun hx => hx.imp_right k.lets_subset
  · refine (hos' x hx).imp_right fun hx => ?_
    rcases hx with hx | hx
    · exact (h.of_mem_names hx).imp_right fun hx => hx.imp_right k.lets_subset
    · exact .inr hx

end

/-- What a lambda takes from outside was looked up in its body, and is not its own. -/
theorem captured {ps os own : List String} (hps : ∀ x, x ∈ ps ↔ x ∈ bs.map (·.param.name))
    (hos : ∀ o ∈ os, o ∈ ps) (hown : ∀ x, x ∈ own ↔ x ∈ ps ∨ x ∈ t.lets)
    (h : Later c body (ps ++ ns) { s with scope := bs ++ s.scope, opened := os, lets := [] } t) :
    ∀ x ∈ distinct (t.opened.filter fun name => !own.contains name), x ∉ ps ∧
      (x ∈ ns ∨ ReadIn c body x) ∧ (x ∈ s.scope.names ∨ DeclaredIn c body x) := by
  intro x hx
  obtain ⟨hx, hnot⟩ := mem_filter.1 (mem_distinct.1 hx)
  replace hnot : x ∉ ps ∧ x ∉ t.lets := by simpa [hown] using hnot
  obtain ⟨new, hopened, hnew⟩ := h.opened
  rw [hopened, mem_append] at hx
  obtain ⟨hread, hbound⟩ := hnew x (hx.resolve_left fun hx => hnot.1 (hos x hx))
  refine ⟨hnot.1, ?_, ?_⟩
  · rw [mem_append, or_assoc] at hread
    exact hread.resolve_left hnot.1
  · rw [Scope.mem_names_append, ← hps, or_assoc] at hbound
    exact (hbound.resolve_left hnot.1).imp_right fun h => h.resolve_right hnot.2

theorem lookedIn {ps os own : List String} {ks : List Node} (hown : ∀ x, x ∈ own ↔ x ∈ ps ∨ x ∈ t.lets)
    (h : Later c body (ps ++ ns) { s with scope := bs ++ s.scope, opened := os, lets := [] } t)
    (hks : ∀ k ∈ ks, k.Looked c body t) {k : Node} (hk : k ∈ ks) {x : String} (hread : k.Reads c x) (hx : x ∉ ps)
    (hmap : x ≠ Expression.mapVariable) :
    x ∈ distinct (t.opened.filter fun name => !own.contains name) ∨ LetIn c body x := by
  by_cases hlet : x ∈ t.lets
  · obtain ⟨new, hlets, hnew⟩ := h.lets
    rw [hlets] at hlet
    exact .inr (hnew x hlet)
  · refine (hks k hk x hread hmap).imp_left fun hopened => mem_distinct.2 (mem_filter.2 ⟨hopened, ?_⟩)
    simpa [hown] using ⟨hx, hlet⟩

end Later

def NodeLaws.capturing (c : Context) (body : List Node) : NodeLaws c where
  states ns := ⟨Later c body ns, fun _ => .of_eq rfl rfl rfl, .trans, fun _ => .of_eq rfl rfl rfl⟩
  Permits := Node.Fits c body
  Post := Node.Looked c body
  PostIn := LookedIn c body
  reads {ns n s b} hn hform htype hb := by
    have hmem : n.attrs.name ∈ s.scope.names := by
      have hfound := find?_some hb
      exact mem_distinct.2 (mem_map.2 ⟨b, mem_of_find?_eq_some hb, by simpa using hfound⟩)
    refine ⟨⟨[], rfl, forall_mem_nil _⟩, ⟨[], (append_nil _).symm, forall_mem_nil _⟩, ⟨_, rfl, ?_⟩⟩
    exact forall_mem_singleton.2 ⟨hn.1 _ (.var hform htype rfl), .inl hmem⟩
  types {ns n s p} hn hform htype hp := by
    have hname : p.name = n.attrs.name := by
      obtain ⟨type, -, hp⟩ := Result.bind_eq_ok.1 hp
      cases hp
      rfl
    refine ⟨⟨[_], rfl, forall_mem_singleton.2 (.inl ⟨n, hn.2, .inl ⟨hform, htype, hname.symm⟩⟩)⟩,
      ⟨[], (append_nil _).symm, forall_mem_nil _⟩, ⟨[], (append_nil _).symm, forall_mem_nil _⟩⟩
  calls {ns n text} hn hform htext := by
    refine ⟨fun {s fs f b} hfs hf hname hlet => ?_, fun _ _ _ => .of_eq rfl rfl rfl⟩
    refine ⟨⟨[b], rfl, forall_mem_singleton.2 (.inr (by simp))⟩, ⟨_, rfl, ?_⟩,
      ⟨[], (append_nil _).symm, forall_mem_nil _⟩⟩
    exact forall_mem_singleton.2 ⟨n, hn.2, hform, htext _ hlet, fs, f, hfs, hf, hname⟩
  branches {ns n s t p} hn hform hp h := by
    obtain ⟨os, hopened, hos⟩ := h.opened
    refine ⟨⟨[], rfl, forall_mem_nil _⟩, h.lets, ⟨os, hopened, fun x hx => (hos x hx).imp_right fun hx => ?_⟩⟩
    rcases hx with hx | hx
    · rcases (Scope.mem_names_append (s := [_])).1 hx with hx | hx
      · rw [map_singleton, mem_singleton] at hx
        exact .inr (.inl ⟨n, hn.2, .inr ⟨hform, hx.trans hp⟩⟩)
      · exact .inl hx
    · exact .inr hx
  below {ns n k} hn hk := by
    obtain ⟨l, hl, hpath⟩ := hn.2
    refine ⟨fun x hx => ?_, l, hl, hpath.tail hk⟩
    by_cases hbinds : x ∈ n.binds
    · exact .inl (mem_append_left _ hbinds)
    · exact (hn.1 x (.inside hk hbinds hx)).imp_left fun hx => mem_append_right _ hx
  mapped hn := ⟨fun x hx => (hn.1 x hx).imp_left fun hx => mem_cons_of_mem _ hx, hn.2⟩
  inner hps hos h := by
    refine ⟨.of_eq rfl rfl rfl, fun own hown u hu => ⟨?_, fun ks hks k hk x hread hx hmap => ?_⟩⟩
    · subst hu
      refine ⟨⟨[], rfl, forall_mem_nil _⟩, ⟨[], (append_nil _).symm, forall_mem_nil _⟩, ⟨_, rfl, fun x hx => ?_⟩⟩
      obtain ⟨-, hread, hbound⟩ := h.captured hps hos hown x hx
      exact ⟨hread, hbound.imp_right .inl⟩
    · subst hu
      exact (h.lookedIn hown hks hk hread hx hmap).imp_left fun hx => mem_append_right _ hx
  post_mono h hn := fun x hx hmap => (hn x hx hmap).imp_left h.opened_subset
  postIn_mono h hn := fun k hk x hx hps hmap => (hn k hk x hx hps hmap).imp_left h.opened_subset
  post_scope _ hn := hn
  post {n t} _ hvar _ hinside := by
    intro x hx hmap
    cases hx with
    | var hform htype hname => exact .inl (hname ▸ hvar hform htype)
    | inside hk _ hx => exact hinside _ hk x hx hmap
  post_lambda {n t} hform h := by
    intro x hx hmap
    cases hx with
    | var hvar =>
      rw [hform] at hvar
      cases hvar
    | inside hk hbinds hx =>
      obtain ⟨a, parameters, body, values, subTrees⟩ := n
      replace hform : a.form = .lambda := hform
      rw [Node.inside, hform] at hk
      exact h _ hk x hx hbinds hmap
  post_mapped {a r rest body values subTrees t} hform hr hrest := by
    intro x hx hmap
    cases hx with
    | var hvar =>
      rw [Node.attrs, hform] at hvar
      cases hvar
    | inside hk _ hx =>
      simp only [Node.inside, hform] at hk
      split at hk
      · cases hk
      · rcases mem_cons.1 hk with rfl | hk
        · exact hr x hx hmap
        · exact hrest _ hk x hx (by simpa using hmap) hmap

/-! ### Lambdas -/

namespace Expression

/-- **A lambda captures what it reads from outside.** It lists every name once, each of them read in its
body, no parameter of its own, and bound outside or declared in the body. Every name that the body
reads and that is no parameter is listed, unless the body may bind it by a let. -/
theorem captured_exact {c : Context} {a : NodeAttrs} {parameters : List NodeAttrs} {body : List Node}
    {typed : List Typed} {dates : Option (Dates Expr)} {s t : ExprState} {e : Expr}
    (h : lambda c a parameters (compileAll c body) typed dates s = (.ok e, t)) :
    ∃ i ps es captured, e = .lambda i ps es captured ∧ ps.map (·.name) = parameters.map (·.name) ∧
      t.opened = s.opened ++ captured ∧ captured.Nodup ∧
      (∀ x ∈ captured, x ∉ ps.map (·.name) ∧ ReadIn c body x ∧
        (x ∈ s.scope.names ∨ DeclaredIn c body x)) ∧
      ∀ x, ReadIn c body x → x ∉ ps.map (·.name) → x ≠ mapVariable →
        x ∈ captured ∨ LetIn c body x := by
  have hdates : KeptDates (ExprLaws.none c).Good dates := fun _ _ _ _ _ _ => trivial
  obtain ⟨bs, r, hps, -, -, hnames⟩ := bindParameters_run _ c parameters typed dates
    { s with opened := [], lets := [] } hdates
  cases r with
  | error f =>
    unfold lambda at h
    rw [ExprM.bind_run] at h
    simp only [ExprM.inner] at h
    rw [ExprM.bind_run, hps] at h
    cases h
  | ok ps =>
    obtain ⟨hown, hscope⟩ := hnames ps rfl
    rw [lambda_run hps] at h
    have hbody := compileAll_holds (.none c) (.capturing c body) body (ps.map (·.name) ++ [])
      (fun n hn => ⟨fun x hx => .inr ⟨n, hn, hx⟩, n, hn, .refl⟩)
      { s with scope := bs ++ s.scope, opened := [], lets := [] } (ExprLaws.keptScope_none _)
    rcases hrun : compileAll c body { s with scope := bs ++ s.scope, opened := [], lets := [] } with ⟨f | es, u⟩
    · rw [hrun] at h
      cases h
    · rw [ExprM.Meets, hrun] at hbody
      rw [hrun] at h
      dsimp only at h
      split at h
      · cases h
      · cases h
        have hstep : Later c body (ps.map (·.name) ++ []) { s with scope := bs ++ s.scope, opened := [], lets := [] } u :=
          hbody.step
        have hlets : ∀ x, x ∈ ps.map (·.name) ++ u.lets ↔ x ∈ ps.map (·.name) ∨ x ∈ u.lets := fun x => mem_append
        have hbound : ∀ x, x ∈ ps.map (·.name) ↔ x ∈ bs.map (·.param.name) := fun x => by
          rw [hscope, mem_reverse, hown]
        refine ⟨_, ps, es, _, rfl, hown, rfl, distinct_nodup _, fun x hx => ?_, fun x hread hx hmap => ?_⟩
        · obtain ⟨hnot, hread, hx⟩ := hstep.captured hbound (forall_mem_nil _) hlets x hx
          exact ⟨hnot, hread.resolve_left not_mem_nil, hx⟩
        · obtain ⟨k, hk, hread⟩ := hread
          exact hstep.lookedIn hlets (hbody.post es rfl).2 hk hread hx hmap

/-- A lambda without parameters, compiled where the number `x` is in scope. -/
def closing (body : List Node) : Result Expr × ExprState :=
  lambda (.of {} "") {} [] (compileAll (.of {} "") body) [] none
    { scope := [{ param := .ofType "x" Library.integer .one }] }

/-- What such a lambda captures, if it compiles. -/
def capturedBy (body : List Node) : Option (List String) :=
  match (closing body).1 with
  | .ok (.lambda _ _ _ captured) => some captured
  | _ => none

/-- A lambda in the body has a parameter `y`, and gives that and `x`. -/
def nested : List Node :=
  [Node.lambdaOf (Node.parameterOf "y" "Integer")
    (.mk { tag := Node.collectionTag } [] [] [Node.reference "y", Node.reference "x"] [])]

/-- The outer lambda captures `x`, which its body reads, and nothing else. -/
theorem nested_captures : ∃ i ps es t, closing nested = (.ok (.lambda i ps es ["x"]), t) ∧
    ReadIn (.of {} "") nested "x" ∧ t.opened = ["x"] := by
  have htest : capturedBy nested = some ["x"] := by decide +kernel
  rcases hrun : closing nested with ⟨f | e, t⟩
  · simp [capturedBy, hrun] at htest
  obtain ⟨i, ps, es, captured, rfl, -, hopened, -, hread, -⟩ := captured_exact hrun
  simp only [capturedBy, hrun, Option.some.injEq] at htest
  subst htest
  exact ⟨i, ps, es, t, rfl, (hread "x" (.head _)).2.1, hopened⟩

/-- Names are captured by their text. In `let x = $x` the `x` from outside is not captured, and a variable
that the body declares with a type and then gives is. -/
theorem captured_by_name :
    capturedBy [Node.call "letFunction" [.mk { tag := Node.stringTag, value := some (.string "\"x\"" "x") } [] [] [] [],
      Node.reference "x"]] = some [] ∧
    capturedBy [Node.parameterOf "y" "Integer", Node.reference "y"] = some ["y"] := by
  decide +kernel

end Expression
end ModelGraph
