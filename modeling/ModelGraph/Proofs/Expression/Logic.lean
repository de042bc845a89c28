/-
# Laws of compiling

The state of a compilation outlives a failure, since a call goes on to its next candidate when a
lambda fails for one. So what is kept of the state is kept either way. Laws of expressions say what
is asked of all that is compiled, laws of states how a state relates to a later one, and laws of nodes
what a node may do and has done once it is compiled. `x.Meets L S s P` says that `x`, run
in the state `s`, obeys both and fails with told failures only, and that `P` holds of what it gives
and of the state that it leaves.

Key definitions: `ExprLaws`, `StateLaws`.
Key theorems: `ExprM.Meets.bind`, `Navigation.select_holds`, `thisBinding_kept`.
-/
import Mathlib.Logic.Relation
import ModelGraph.Proofs.Expression.Sound
import ModelGraph.Proofs.Expression.Told

namespace ModelGraph

open Model List

variable {t : TypeRef} {context dates : Option (Dates Expr)} {given args ds : List Expr} {i : ExprInfo}
  {name : String} {span : Span} {e receiver : Expr} {target : Temporal} {v : Value} {vs : List Value}
  {type : GenericType}

/-! ### Laws -/

/-- A candidate is a function of the model or of the library, with its parameters. -/
def Candidate.IsOf (m : Model) (f : Candidate) : Prop :=
  ∃ path, f.callee = .function path ∧ m.Takes path f.parameters

def Value.Plain : Value → Prop
  | .tree _ => False
  | .expr _ => False
  | _ => True

def KeptDates (Kept : Expr → Prop) (dates : Option (Dates Expr)) : Prop :=
  ∀ d, dates = some d → ∀ x ∈ d.toList, Kept x

/-- Laws of what is compiled in a context: what is asked of an expression by itself. Only of calls is
anything asked. -/
structure ExprLaws (c : Context) where
  Asks : Expr → Prop
  asks_instances : ∀ i vs, Asks (.instances i vs)
  asks_var : ∀ i name, Asks (.var i name)
  asks_lambda : ∀ i ps body captured, Asks (.lambda i ps body captured)
  asks_enum : ∀ {x name enumSpan span e}, Navigation.enumValue x name enumSpan span = .ok e → Asks e
  asks_call : ∀ {f : Candidate} {i args dates}, f.IsOf c.model → f.accepts c.model args = true →
    Asks (.call i f.name f.callee args "" dates [])
  asks_apply : ∀ {t name arity span found receiver args dates original}, receiver.raw.class? = some t →
    receiver.multiplicity = .one → c.model.member t name arity span = .ok found →
    Asks (Navigation.apply found name (receiver :: args) dates original span)

namespace Node

/-- The nodes that are compiled with a node, right below it. Nothing is where the receiver of a property
is an enumeration. -/
def inside (c : Context) : Node → List Node
  | .mk a parameters body values subTrees =>
    match a.form with
    | .call => parameters
    | .property =>
      if (parameters.head?.bind fun r => Expression.enumReceiver? c r.attrs).isSome then [] else parameters
    | .lambda => body
    | .collection => values
    | .tree => subTrees
    | .branch => parameters ++ subTrees
    | _ => []

/-- The names that a node binds in the nodes below it: the parameters of a lambda. -/
def binds : Node → List String
  | .mk a parameters _ _ _ => if a.form = .lambda then parameters.map (·.attrs.name) else []

def In (c : Context) (body : List Node) (n : Node) : Prop :=
  ∃ k ∈ body, Relation.ReflTransGen (fun n k => k ∈ n.inside c) k n

end Node

def Expr.text? : Expr → Option String
  | .instances _ [.text x] => some x
  | _ => none

/-- A node that is the constant of a text: a literal, a package, or a collection of one. -/
inductive Node.IsText (x : String) : Node → Prop
  | literal {a parameters body values subTrees e} : a.form = .literal → Literal.compile a = .ok e →
    e.text? = some x → IsText x (.mk a parameters body values subTrees)
  | package {a parameters body values subTrees} : a.form = .element → a.path = x →
    IsText x (.mk a parameters body values subTrees)
  | collection {a parameters body v subTrees} : a.form = .collection → IsText x v →
    IsText x (.mk a parameters body [v] subTrees)

def Node.Tells (n : Node) (e : Expr) : Prop := ∀ x, e.text? = some x → n.IsText x

/-- The warning about a call that finds another function than it names. -/
def Context.mismatch (c : Context) (problem : Problem) (span : Span) : Finding :=
  { rule := "function-matching", severity := .warning, message := problem.message, path := c.element, span }

/-- A call finds a function, with a warning if it names another one. -/
def Context.Finds (c : Context) (function control : String) (span : Span) (t : ExprState) : Prop :=
  ∃ fs f, c.candidates (callName function control).1 span = .ok fs ∧ f ∈ fs ∧
    ∀ problem, controlProblem? (callName function control).2 f = some problem → c.mismatch problem span ∈ t.warnings

/-- Laws of the states of a compilation: how a state relates to a later one. -/
structure StateLaws where
  Step : ExprState → ExprState → Prop
  refl : ∀ s, Step s s
  trans : ∀ {s t u}, Step s t → Step t u → Step s u
  serial : ∀ s, Step s { s with serial := s.serial + 1 }

/-- A call may be made: the functions that it may find may warn, and may bind the text that is its first
argument. The call is given by the name and the control that it is written with and by its position. -/
structure StateLaws.Calls (S : StateLaws) (c : Context) (function control : String) (span : Span)
    (text : Option String) : Prop where
  lets : ∀ {s fs} {f : Candidate} {b : Binding}, c.candidates (callName function control).1 span = .ok fs → f ∈ fs →
    f.name = "letFunction" → text = some b.param.name →
    S.Step s { s with scope := b :: s.scope, lets := s.lets ++ [b.param.name] }
  warns : ∀ {s fs} {f : Candidate} {problem}, c.candidates (callName function control).1 span = .ok fs → f ∈ fs →
    controlProblem? (callName function control).2 f = some problem →
    S.Step s { s with warnings := s.warnings ++ [c.mismatch problem span] }

/-- Laws of nodes. States have the laws `states ns` below lambdas with parameters called `ns`. `Post` says
what a node has done to a state once it is compiled, and `PostIn ns` what nodes have done once a lambda
is compiled with them in its body. -/
structure NodeLaws (c : Context) where
  states : List String → StateLaws
  Permits : List String → Node → Prop
  Post : Node → ExprState → Prop
  PostIn : List String → List Node → ExprState → Prop
  reads : ∀ {ns n s b}, Permits ns n → n.attrs.form = .var → n.attrs.typePath = "" →
    s.scope.lookup? n.attrs.name = some b → (states ns).Step s { s with opened := s.opened ++ [n.attrs.name] }
  types : ∀ {ns n s p}, Permits ns n → n.attrs.form = .var → n.attrs.typePath ≠ "" → c.parameter n.attrs = .ok p →
    (states ns).Step s { s with scope := { param := p } :: s.scope }
  calls : ∀ {ns n text}, Permits ns n → n.attrs.form = .call →
    (∀ x, text = some x → ∃ k, n.parameters.head? = some k ∧ k.IsText x) →
    (states ns).Calls c n.attrs.function n.attrs.control n.attrs.span text
  branches : ∀ {ns n s t p}, Permits ns n → n.attrs.form = .branch → p.name = "this" →
    (states ns).Step { s with scope := { param := p } :: s.scope } t → (states ns).Step s { t with scope := s.scope }
  below : ∀ {ns n k}, Permits ns n → k ∈ n.inside c → Permits (n.binds ++ ns) k
  mapped : ∀ {ns n}, Permits ns n → Permits (Expression.mapVariable :: ns) n
  /-- A lambda is compiled with bindings of its own, some of which may have been looked up. -/
  inner : ∀ {ns ps : List String} {s t : ExprState} {bs : List Binding} {os : List String},
    (∀ x, x ∈ ps ↔ x ∈ bs.map (·.param.name)) → (∀ o ∈ os, o ∈ ps) →
    (states (ps ++ ns)).Step { s with scope := bs ++ s.scope, opened := os, lets := [] } t →
    (states ns).Step s { s with warnings := t.warnings, serial := t.serial } ∧
    ∀ own : List String, (∀ x, x ∈ own ↔ x ∈ ps ∨ x ∈ t.lets) → ∀ u, u = { s with
        warnings := t.warnings, serial := t.serial
        opened := s.opened ++ distinct (t.opened.filter fun name => !own.contains name) } →
      (states ns).Step s u ∧ ∀ ks, (∀ k ∈ ks, Post k t) → PostIn ps ks u
  post_mono : ∀ {ns n s t}, (states ns).Step s t → Post n s → Post n t
  postIn_mono : ∀ {ns ps ks s t}, (states ns).Step s t → PostIn ps ks s → PostIn ps ks t
  post_scope : ∀ {n t} (scope : Scope), Post n t → Post n { t with scope }
  post : ∀ {n t}, n.attrs.form ≠ .lambda →
    (n.attrs.form = .var → n.attrs.typePath = "" → n.attrs.name ∈ t.opened) →
    (n.attrs.form = .call → c.Finds n.attrs.function n.attrs.control n.attrs.span t) →
    (∀ k ∈ n.inside c, Post k t) → Post n t
  post_lambda : ∀ {n t}, n.attrs.form = .lambda → PostIn n.binds n.body t → Post n t
  post_mapped : ∀ {a r rest body values subTrees t}, a.form = .property → Post r t →
    PostIn [Expression.mapVariable] rest t → Post (.mk a (r :: rest) body values subTrees) t

/-- Laws that ask nothing of expressions. -/
def ExprLaws.none (c : Context) : ExprLaws c where
  Asks _ := True
  asks_instances _ _ := trivial
  asks_var _ _ := trivial
  asks_lambda _ _ _ _ := trivial
  asks_enum _ := trivial
  asks_call _ _ := trivial
  asks_apply _ _ _ := trivial

def StateLaws.none : StateLaws := ⟨fun _ _ => True, fun _ => trivial, fun _ _ => trivial, fun _ => trivial⟩

def NodeLaws.none (c : Context) : NodeLaws c where
  states _ := .none
  Permits _ _ := True
  Post _ _ := True
  PostIn _ _ _ := True
  reads _ _ _ _ := trivial
  types _ _ _ _ := trivial
  calls _ _ _ := ⟨fun _ _ _ _ => trivial, fun _ _ _ => trivial⟩
  branches _ _ _ _ := trivial
  below _ _ := trivial
  mapped _ := trivial
  inner _ _ _ := ⟨trivial, fun _ _ _ _ => ⟨trivial, fun _ _ => trivial⟩⟩
  post_mono _ _ := trivial
  postIn_mono _ _ := trivial
  post_scope _ _ := trivial
  post _ _ _ _ := trivial
  post_lambda _ _ := trivial
  post_mapped _ _ _ := trivial

/-! ### Dates -/

section Dates

variable {Kept : Expr → Prop}

theorem keptDates_none : KeptDates Kept none := nofun

theorem keptDates_empty : KeptDates Kept (some .empty) := by
  rintro _ ⟨⟩ x hx
  cases hx

theorem keptDates_getD (h : KeptDates Kept context) : KeptDates Kept (some (context.getD .empty)) := by
  cases context with
  | none => exact keptDates_empty
  | some d => exact h

theorem keptDates_set {d : Dates Expr} {x : Expr} (hd : KeptDates Kept (some d)) (hx : Kept x)
    (i : Temporal.Dimension) : KeptDates Kept (some (d.set (some x) i)) := by
  rintro _ ⟨⟩ y hy
  have hmem : y = x ∨ y ∈ d.toList := by
    cases i <;> simp only [Dates.set, Dates.toList] at hy ⊢ <;> grind
  rcases hmem with rfl | hmem
  · exact hx
  · exact hd d rfl y hmem

theorem keptDates_after (h : KeptDates Kept context) (hds : ∀ x ∈ ds, Kept x) : KeptDates Kept (some (datesAfter context target ds)) := by
  have fold (l : List (Temporal.Dimension × Expr)) (hl : ∀ x ∈ l, Kept x.2) (d : Dates Expr)
      (hd : KeptDates Kept (some d)) :
      KeptDates Kept (some (l.foldl (fun d x => d.set (some x.2) x.1) d)) := by
    induction l generalizing d with
    | nil => exact hd
    | cons x l ih =>
      obtain ⟨hx, hl⟩ := forall_mem_cons.1 hl
      exact ih hl _ (keptDates_set hd hx x.1)
  exact fold _ (fun x hx => hds _ (of_mem_zip hx).2) _ (keptDates_getD h)

theorem mem_of_fillDates {source : Temporal} {context : Dates Expr}
    (h : fillDates source target given context = some ds) : ∀ x ∈ ds, x ∈ given ∨ x ∈ context.toList := by
  obtain ⟨processing, business⟩ := context
  unfold fillDates at h
  split at h <;> cases processing <;> cases business <;> simp_all [Dates.toList] <;> grind

end Dates

/-! ### Good expressions -/

theorem Value.Plain.parts (h : v.Plain) : v.parts = [] := by
  cases v <;> first | rfl | exact h.elim

theorem FetchBranch.forall_mem_argumentsOfAll {P : Expr → Prop} {bs : List FetchBranch} :
    (∀ e ∈ argumentsOfAll bs, P e) ↔ ∀ b ∈ bs, ∀ e ∈ b.arguments, P e := by
  induction bs with
  | nil => simp [argumentsOfAll]
  | cons b bs ih => rw [argumentsOfAll, forall_mem_append, forall_mem_cons, ih]

namespace ExprLaws

variable {c : Context} (L : ExprLaws c)

/-- What is asked holds of an expression and of all that occurs in it. -/
def Good (e : Expr) : Prop := e.All L.Asks

/-- A good expression that is no constant of a text. -/
def Textless (e : Expr) : Prop := L.Good e ∧ e.text? = .none

def KeptScope (s : Scope) : Prop := ∀ b ∈ s, KeptDates L.Good b.dates

variable {L}

theorem good_var (i : ExprInfo) (name : String) : L.Good (.var i name) := Expr.all_iff.2 ⟨L.asks_var i name, nofun⟩

theorem good_instances : L.Good (.instances i vs) ↔ ∀ v ∈ vs, ∀ p ∈ v.parts, L.Good p :=
  Expr.all_instances.trans (and_iff_right (L.asks_instances i vs))

theorem good_plain (h : ∀ v ∈ vs, v.Plain) : L.Good (.instances i vs) :=
  good_instances.2 fun v hv p hp => by
    rw [(h v hv).parts] at hp
    cases hp

theorem good_constant (h : v.Plain) : L.Good (.constant type span v) := good_plain (forall_mem_singleton.2 h)

theorem good_collect {a : NodeAttrs} {items : List Expr} (h : ∀ e ∈ items, L.Good e) :
    L.Good (Expression.collect c a items) := by
  unfold Expression.collect
  split
  · exact good_plain (forall_mem_nil _)
  · refine good_instances.2 fun v hv p hp => ?_
    obtain ⟨e, he, rfl⟩ := mem_map.1 hv
    split at hp
    · exact good_instances.1 (h _ he) _ (mem_singleton_self _) p hp
    · rw [mem_singleton.1 hp]
      exact h e he

theorem good_lambda {ps : List Param} {body : List Expr} {captured : List String} (h : ∀ e ∈ body, L.Good e) : L.Textless (.lambda i ps body captured) :=
  ⟨Expr.all_iff.2 ⟨L.asks_lambda _ _ _ _, h⟩, rfl⟩

theorem good_enum {x : Element} {enumSpan : Span} (h : Navigation.enumValue x name enumSpan span = .ok e) : L.Textless e := by
  have hasks := L.asks_enum h
  obtain ⟨v, -, h⟩ := Result.bind_eq_ok.1 h
  split at h
  · cases h
  · cases h
    refine ⟨Expr.all_call.2 ⟨hasks, ?_, nofun, forall_mem_nil _⟩, rfl⟩
    simp only [forall_mem_cons]
    exact ⟨good_constant trivial, good_constant trivial, forall_mem_nil _⟩

theorem good_call {f : Candidate} (hf : f.IsOf c.model) (hfit : f.accepts c.model args = true)
    (h : ∀ e ∈ args, L.Good e) (hdates : KeptDates L.Good dates) : L.Textless (.call i f.name f.callee args "" dates []) :=
  ⟨Expr.all_call.2 ⟨L.asks_call hf hfit, h, hdates, forall_mem_nil _⟩, rfl⟩

theorem good_apply {arity : Nat} {found : Member} {original : List Expr} (ht : receiver.raw.class? = some t)
    (hone : receiver.multiplicity = .one) (hfound : c.model.member t name arity span = .ok found)
    (hargs : ∀ e ∈ receiver :: args, L.Good e) (hdates : KeptDates L.Good dates)
    (horiginal : ∀ e ∈ original, L.Good e) :
    L.Textless (Navigation.apply found name (receiver :: args) dates original span) :=
  ⟨Expr.all_call.2 ⟨L.asks_apply ht hone hfound, hargs, hdates, horiginal⟩, rfl⟩

theorem good_tree {branches : List FetchBranch} (h : ∀ b ∈ branches, ∀ e ∈ b.arguments, L.Good e) :
    L.Textless (.constant type span (.tree (.mk t.path span branches))) :=
  ⟨good_instances.2 (forall_mem_singleton.2 (FetchBranch.forall_mem_argumentsOfAll.2 h)), rfl⟩

theorem keptScope_none (s : Scope) : (none c).KeptScope s := fun _ _ _ _ _ _ _ _ => trivial

end ExprLaws

/-! ### Compilations under laws -/

namespace ExprM

variable {α β : Type} {c : Context} {L : ExprLaws c} {S : StateLaws} {s : ExprState}
  {P : α → ExprState → Prop} {Q : β → ExprState → Prop}

theorem bind_run (x : ExprM α) (f : α → ExprM β) (s : ExprState) :
    (x >>= f) s = match x s with
      | (.ok a, t) => f a t
      | (.error e, t) => (.error e, t) := by
  show StateT.bind x (ExceptT.bindCont f) s = _
  rcases h : x s with ⟨_ | a, t⟩ <;> simp only [StateT.bind, h] <;> rfl

theorem bind_eq_ok {x : ExprM α} {f : α → ExprM β} {s' : ExprState} {b : β} :
    (x >>= f) s = (.ok b, s') ↔ ∃ a t, x s = (.ok a, t) ∧ f a t = (.ok b, s') := by
  rw [bind_run]
  rcases x s with ⟨e | a, t⟩
  · constructor
    · intro h
      cases h
    · rintro ⟨a, t', h, -⟩
      cases h
  · constructor
    · intro h
      exact ⟨a, t, rfl, h⟩
    · rintro ⟨a', t', h, hf⟩
      cases h
      exact hf

structure Comes (L : ExprLaws c) (S : StateLaws) (s : ExprState) (r : Result α × ExprState)
    (P : α → ExprState → Prop) : Prop where
  scope : L.KeptScope r.2.scope
  step : S.Step s r.2
  post : ∀ a, r.1 = .ok a → P a r.2
  told : r.1.Told

abbrev Meets (x : ExprM α) (L : ExprLaws c) (S : StateLaws) (s : ExprState) (P : α → ExprState → Prop) : Prop :=
  Comes L S s (x s) P

/-- The compilation obeys the laws in every state with kept dates. -/
def Holds (x : ExprM α) (L : ExprLaws c) (S : StateLaws) (P : α → ExprState → Prop) : Prop :=
  ∀ s, L.KeptScope s.scope → x.Meets L S s P

abbrev Gives (x : ExprM α) (L : ExprLaws c) (S : StateLaws) (R : α → Prop) : Prop := x.Holds L S fun a _ => R a

theorem Meets.bind {x : ExprM α} {f : α → ExprM β} (hx : x.Meets L S s P)
    (hf : ∀ a t, x s = (.ok a, t) → L.KeptScope t.scope → P a t → (f a).Meets L S t Q) :
    (x >>= f).Meets L S s Q := by
  unfold Meets at hx ⊢
  rw [bind_run]
  rcases h : x s with ⟨e | a, t⟩ <;> rw [h] at hx
  · exact ⟨hx.scope, hx.step, nofun, Result.throws_error (hx.told e rfl)⟩
  · have hrest := hf a t h hx.scope (hx.post a rfl)
    exact ⟨hrest.scope, S.trans hx.step hrest.step, hrest.post, hrest.told⟩

theorem Meets.mono {R : α → ExprState → Prop} {x : ExprM α} (hx : x.Meets L S s P)
    (h : ∀ a t, S.Step s t → P a t → R a t) : x.Meets L S s R :=
  ⟨hx.scope, hx.step, fun a ha => h a _ hx.step (hx.post a ha), hx.told⟩

theorem Holds.bind {x : ExprM α} {f : α → ExprM β} (hx : x.Holds L S P)
    (hf : ∀ a t, L.KeptScope t.scope → P a t → (f a).Meets L S t Q) : (x >>= f).Holds L S Q :=
  fun s hs => (hx s hs).bind fun a t _ ht ha => hf a t ht ha

theorem Gives.bind {R : α → Prop} {x : ExprM α} {f : α → ExprM β} (hx : x.Gives L S R)
    (hf : ∀ a, R a → (f a).Holds L S Q) : (x >>= f).Holds L S Q :=
  Holds.bind hx fun a t ht ha => hf a ha t ht

theorem meets_pure {a : α} (hs : L.KeptScope s.scope) (h : P a s) : (pure a : ExprM α).Meets L S s P :=
  ⟨hs, S.refl s, by rintro _ ⟨⟩; exact h, Result.throws_ok a⟩

theorem gives_pure {R : α → Prop} {a : α} (h : R a) : (pure a : ExprM α).Gives L S R := fun _ hs => meets_pure hs h

theorem gives_ofResult {R : α → Prop} {r : Result α} (hr : r.Told) (h : ∀ a, r = .ok a → R a) :
    (ofResult r).Gives L S R := fun s hs => ⟨hs, S.refl s, h, hr⟩

theorem holds_error {f : Failure} (hf : f.Told) : (ofResult (.error f) : ExprM α).Holds L S P :=
  fun s hs => ⟨hs, S.refl s, nofun, Result.throws_error hf⟩

theorem holds_fail {problem : Problem} (h : problem.isStage = false) :
    (fail span problem : ExprM α).Holds L S P := holds_error (Failure.told_of _ _ h)

theorem meets_of_run {x : ExprM α} {a : α} {t : ExprState} (hx : x s = (.ok a, t)) (ht : L.KeptScope t.scope)
    (hstep : S.Step s t) (h : P a t) : x.Meets L S s P := by
  unfold Meets
  rw [hx]
  exact ⟨ht, hstep, by rintro _ ⟨⟩; exact h, Result.throws_ok a⟩

theorem gives_freshSerial : freshSerial.Gives L S fun _ => True :=
  fun s hs => meets_of_run rfl hs (S.serial s) trivial

theorem Holds.within {x : ExprM α} {p : Param}
    (hstep : ∀ s t, S.Step { s with scope := { param := p } :: s.scope } t → S.Step s { t with scope := s.scope })
    (hx : x.Holds L S P) (hP : ∀ a t scope, P a t → P a { t with scope }) : (within { param := p } x).Holds L S P := by
  intro s hs
  have h := hx { s with scope := { param := p } :: s.scope } (forall_mem_cons.2 ⟨keptDates_none, hs⟩)
  exact ⟨hs, hstep _ _ h.step, fun a ha => hP a _ _ (h.post a ha), h.told⟩

theorem datesOf_kept (he : L.Good e) (hs : L.KeptScope s.scope) :
    ∃ dates, datesOf e s = (.ok dates, s) ∧ KeptDates L.Good dates := by
  cases e with
  | call => exact ⟨_, rfl, (Expr.all_call.1 he).2.2.1⟩
  | var i name =>
    refine ⟨_, rfl, fun d hd => ?_⟩
    obtain ⟨b, hb, hd⟩ := Option.bind_eq_some_iff.1 hd
    exact hs b (mem_of_find?_eq_some hb) d hd
  | instances => exact ⟨none, rfl, keptDates_none⟩
  | lambda => exact ⟨none, rfl, keptDates_none⟩

end ExprM

/-! ### Navigation -/

namespace Navigation

variable {c : Context} {L : ExprLaws c} {S : StateLaws}

theorem dated_good {q : QualifiedProperty} (ht : receiver.raw.class? = some t) (hone : receiver.multiplicity = .one)
    (hgood : ∀ a ∈ receiver :: given, L.Good a) (hcontext : KeptDates L.Good context)
    (h : dated c.model t q name receiver given context span = .ok e) : L.Textless e := by
  obtain ⟨hr, hgiven⟩ := forall_mem_cons.1 hgood
  unfold dated at h
  dsimp only at h
  split at h
  · obtain ⟨found, hfound, h⟩ := Result.bind_eq_ok.1 h
    cases h
    refine ExprLaws.good_apply ht hone hfound hgood ?_ (forall_mem_nil _)
    split
    · exact keptDates_after hcontext hgiven
    · exact keptDates_none
  · split at h
    · cases h
    · rename_i ds hds
      obtain ⟨found, hfound, h⟩ := Result.bind_eq_ok.1 h
      cases h
      have hall : ∀ x ∈ ds, L.Good x := fun x hx => by
        rcases mem_of_fillDates hds x hx with hx | hx
        · exact hgiven x hx
        · exact keptDates_getD hcontext _ rfl x hx
      exact ExprLaws.good_apply ht hone hfound (forall_mem_cons.2 ⟨hr, hall⟩) (keptDates_after hcontext hall) hgood

theorem select_holds (name : String) (span : Span) (hone : receiver.multiplicity = .one)
    (hgood : ∀ a ∈ receiver :: given, L.Good a) : (select c.model name receiver given span).Gives L S L.Textless := by
  unfold select
  split
  · exact ExprM.holds_fail rfl
  · rename_i t ht
    refine ExprM.Gives.bind (R := KeptDates L.Good) (fun s hs => ?_) fun context hcontext => ?_
    · obtain ⟨dates, hrun, hdates⟩ := ExprM.datesOf_kept (hgood receiver (.head _)) hs
      exact ExprM.meets_of_run hrun hs (S.refl s) hdates
    split
    · exact ExprM.gives_ofResult (dated_told _ _ _ _ _ _ _ _) fun e he => dated_good ht hone hgood hcontext he
    · refine (ExprM.gives_ofResult (c.model.member_told _ _ _ _) fun _ h => h).bind fun found hfound =>
        ExprM.gives_pure (ExprLaws.good_apply ht hone hfound hgood ?_ (forall_mem_nil _))
      split
      · split
        · exact keptDates_none
        · exact hcontext
      · exact keptDates_none

end Navigation

/-- The dates of a receiver are its own properties. -/
theorem thisBinding_kept {c : Context} (L : ExprLaws c) (t : TypeRef) :
    KeptDates L.Good (thisBinding c.model t).dates := by
  unfold thisBinding
  split
  · exact keptDates_none
  · rename_i htemporal
    have hclass : t.kind = .classType := by
      by_contra hkind
      exact htemporal (by rw [temporal, if_neg hkind])
    have hraw : (Param.ofType "this" t .one).expr.raw.class? = some t := by
      show RawType.class? (.named t) = some t
      simp [RawType.class?, hclass]
    refine List.foldlRecOn (motive := fun d => KeptDates L.Good (some d)) _ _ keptDates_empty
      fun d hd x _ => ?_
    split
    · exact hd
    · rename_i p hp
      exact keptDates_set hd (ExprLaws.good_apply hraw rfl hp
        (forall_mem_singleton.2 (ExprLaws.good_var _ _)) keptDates_none (forall_mem_nil _)).1 x

end ModelGraph
