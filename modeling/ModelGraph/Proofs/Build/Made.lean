/-
# What steps are made of

A step is made of basic ones: it reads the model, compiles expressions in it, fails, changes
elements or adds new ones. What all basic steps do, every step does that is made of them. Its
failures are told, unless it moves an element on to a stage. It leads along the relation that
its changes follow, and takes in the elements that it adds. Where it goes through, it does so from
every model that is alike in what the step reads, with the same outcome. That model may be under
other options, unless the step warns about a call that finds another function than it names.

Key definitions: `Model.Sight`, `Build.Made`.
Key theorems: `Build.Made.told`, `Build.Made.enrols`, `Build.Made.agrees`.
-/
import ModelGraph.Proofs.Expression.Compile
import ModelGraph.Proofs.Expression.Options
import ModelGraph.Proofs.Model.Views

namespace ModelGraph

open Result Expression

open List hiding get modify

open Model

variable {α β : Type} {r r' : Result α} {m m' k : Model} {span : Span} {content : ElementContent}
  {S : Model → Model → Prop} {path : String} {c : Prop} {y : Build α}

/-! ### Results in other models -/

namespace Result

/-- What the first result gives, the second one does. -/
def Carries (r r' : Result α) : Prop := ∀ a, r = .ok a → r' = .ok a

theorem Carries.refl (r : Result α) : r.Carries r := fun _ h => h

theorem Carries.bind {f f' : α → Result β} (hr : r.Carries r')
    (hf : ∀ a, (f a).Carries (f' a)) : (r >>= f).Carries (r' >>= f') := by
  intro b h
  obtain ⟨a, ha, hb⟩ := bind_eq_ok.1 h
  exact bind_eq_ok.2 ⟨a, hr a ha, hf a b hb⟩

theorem carries_ite {p : Prop} [Decidable p] {s s' : Result α} (hr : r.Carries r')
    (hs : s.Carries s') : Carries (if p then r else s) (if p then r' else s') := by
  split
  · exact hr
  · exact hs

theorem carries_error (f : Failure) (r : Result α) : Carries (.error f) r := fun _ h => nomatch h

theorem carries_fail_bind (span : Span) (p : Problem) (f : α → Result β) (r : Result β) :
    Carries (failAt span p >>= f) r := fun _ h => nomatch h

end Result

/-! ### Models side by side -/

/-- A relation between models that steps keep. The models are alike, the first one under the
options of the second or by default, and stay related when warnings or elements are added to both. -/
class Model.Sight (S : Model → Model → Prop) : Prop where
  like : ∀ {m m'}, S m m' → m.Like m'
  options : ∀ {m m'}, S m m' → m'.options = m.options ∨ m.options = {}
  warned : ∀ {m m'}, S m m' → ∀ ws : List Finding,
    S { m with warnings := m.warnings ++ ws } { m' with warnings := m'.warnings ++ ws }
  register : ∀ {m m' n package name span content annotations}, S m m' →
    m.register package name span content annotations = .ok n →
    ∃ n', m'.register package name span content annotations = .ok n' ∧ S n n'
  setContent : ∀ {m m' path content}, S m m' → (∀ e : Element, e.content = content → e.isListed = false) →
    content.mapping? = none → S (m.setContent path content) (m'.setContent path content)

/-- Related models are under the same options. -/
def Model.Exact (S : Model → Model → Prop) : Prop := ∀ m m', S m m' → m'.options = m.options

def Model.Under (o : Options) (m m' : Model) : Prop := m.options = {} ∧ m' = m.under o

namespace Model

theorem register_under {n : Model} {package name : String}
    {annotations : Annotations} (h : m.register package name span content annotations = .ok n) (o : Options) :
    (m.under o).register package name span content annotations = .ok (n.under o) ∧
      n.options = m.options ∧ n.warnings = m.warnings := by
  have helement (path : String) : (m.under o).element? path = m.element? path := rfl
  have hpackages : (m.under o).packages = m.packages := rfl
  unfold register at h ⊢
  simp only [helement, hpackages]
  split at h
  · cases h
  · rename_i hpackage
    rw [if_neg hpackage]
    rcases hensure : m.packages.ensure (packageNames package) with ⟨packages, _ | problem⟩
    · simp only [hensure] at h ⊢
      split at h
      · cases h
      · rename_i hfree
        rw [if_neg hfree]
        cases h
        exact ⟨rfl, rfl, rfl⟩
    · simp only [hensure] at h
      cases h

theorem Sight.aligned [Sight S] (h : S m m') : m.Aligned (Exact S) m' := by
  refine ⟨Sight.like h, ?_⟩
  by_cases hsame : m'.options = m.options
  · exact .inl hsame
  · exact .inr ⟨fun hexact => hsame (hexact m m' h), (Sight.options h).resolve_left hsame⟩

theorem Sight.context [Sight S] (h : S m m') (path : String) :
    (Context.of m path).Aligned (Exact S) (Context.of m' path) :=
  (Sight.aligned h).context path

instance (o : Options) : Sight (Under o) where
  like := by
    rintro m _ ⟨-, rfl⟩
    exact m.like_under o
  options h := .inr h.1
  warned := by
    rintro m _ ⟨hm, rfl⟩ ws
    exact ⟨hm, rfl⟩
  register := by
    rintro m _ n _ _ _ _ _ ⟨hm, rfl⟩ h
    obtain ⟨hunder, hoptions, -⟩ := register_under h o
    exact ⟨_, hunder, hoptions.trans hm, rfl⟩
  setContent := by
    rintro m _ _ _ ⟨hm, rfl⟩ _ _
    exact ⟨hm, rfl⟩

instance {γ : Type} (view : String → Mapping → γ) : Sight (LikeIn view) where
  like := LikeIn.toLike
  options h := .inl h.options
  warned h _ := h.noted ⟨rfl, rfl, rfl, rfl⟩ ⟨rfl, rfl, rfl, rfl⟩
  register h hn := h.register hn
  setContent h hlisted hmapping := h.setContent hlisted hmapping

/-! ### Changes -/

/-- A change of a model that leads along `R`. It leaves the options, adds to the warnings and keeps
models related by `S`. -/
structure Edits (R S : Model → Model → Prop) (f : Model → Model) : Prop where
  along : ∀ m, R m (f m)
  options : ∀ m, (f m).options = m.options
  warnings : ∀ m, m.warnings <+: (f m).warnings
  same : ∀ m m', S m m' → S (f m) (f m')

/-- The mapping of a path is the same in related models, and may be changed in both alike. -/
class Writes (S : Model → Model → Prop) (path : String) : Prop where
  mapping? : ∀ {m m'}, S m m' → m'.mapping? path = m.mapping? path
  updateMapping : ∀ {m m'} (f : Mapping → Mapping), S m m' → S (m.updateMapping path f) (m'.updateMapping path f)

instance (o : Options) (path : String) : Writes (Under o) path where
  mapping? := by
    rintro m _ ⟨-, rfl⟩
    rfl
  updateMapping := by
    rintro m _ f ⟨hm, rfl⟩
    exact ⟨hm, rfl⟩

instance {γ : Type} (part : Mapping → γ) (path : String) : Writes (LikeIn (own path part)) path where
  mapping? := LikeIn.mapping?_own
  updateMapping _ h := h.updateMapping fun _ _ hx => by rw [eq_of_own hx]

section Edits

variable {R S : Model → Model → Prop} {o : Options}

theorem edits_update {f : Element → Element} (h : ∀ m, R m (m.update path f)) :
    Edits R (Under o) fun m => m.update path f :=
  ⟨h, fun _ => rfl, fun _ => prefix_rfl, fun _ _ hm => ⟨hm.1, by rw [hm.2]; rfl⟩⟩

theorem edits_setContent (path : String) (content : ElementContent) :
    Edits Stays (Under o) fun m => m.setContent path content :=
  edits_update fun _ => stays_setContent content

theorem edits_updateClass (path : String) (f : ClassContent → ClassContent) :
    Edits Stays (Under o) fun m => m.updateClass path f :=
  edits_update fun _ => stays_updateClass f

theorem edits_updateMapping (path : String) [Writes S path] (f : Mapping → Mapping) :
    Edits Stays S fun m => m.updateMapping path f :=
  ⟨fun _ => stays_updateMapping f, fun _ => rfl, fun _ => prefix_rfl, fun _ _ hm => Writes.updateMapping f hm⟩

theorem edits_warn [Sight S] (rule : String) (span : Span) (path message : String) :
    Edits Noted S fun m => m.warn rule span path message :=
  ⟨fun _ => ⟨rfl, rfl, rfl, rfl⟩, fun _ => rfl, fun _ => prefix_append _ _, fun _ _ hm => Sight.warned hm _⟩

theorem edits_foldl {f : Model → α → Model} (h : ∀ a, Edits Noted S (f · a)) :
    ∀ as : List α, Edits Noted S (as.foldl f ·)
  | [] => ⟨.refl, fun _ => rfl, fun _ => prefix_rfl, fun _ _ hm => hm⟩
  | a :: as => by
    have hrest := edits_foldl h as
    exact
      { along := fun m => ((h a).along m).trans (hrest.along _)
        options := fun m => (hrest.options _).trans ((h a).options m)
        warnings := fun m => ((h a).warnings m).trans (hrest.warnings _)
        same := fun m m' hm => hrest.same _ _ ((h a).same m m' hm) }

end Edits

end Model

namespace Build

/-! ### Steps -/

/-- The step is made of basic ones. Changes lead along `R`, elements are added for the headers.
A failure that is not told needs a step that moves. What is read of the model comes to the same in
a model that `S` relates to it, unless the step fails. -/
inductive Made (moves : Prop) (R S : Model → Model → Prop) : List Header → {α : Type} → Build α → Prop
  | pure {α : Type} (a : α) : Made moves R S [] (pure a : Build α)
  | throw {α : Type} {hs : List Header} {f : Failure} (h : f.Told ∨ moves) : Made moves R S hs (throw f : Build α)
  | seq {α β : Type} {hs hs' : List Header} {x : Build α} {g : α → Build β} (hx : Made moves R S hs x)
      (hg : ∀ a, Made moves R S hs' (g a)) : Made moves R S (hs ++ hs') (x >>= g)
  | get {α : Type} {hs : List Header} {g : Model → Build α} (hg : ∀ m, Made moves R S hs (g m))
      (hsame : ∀ m m' k, S m m' → Result.Carries (g m k) (g m' k)) : Made moves R S hs (get >>= g)
  | run {α : Type} {x : Model → ExprM α} (scope : Scope) (typed : List Typed) (htold : ∀ m s, Result.Told (x m s).1)
      (hagrees : ∀ {P : Prop} {m m'}, m.Aligned P m' → (x m).Agrees P (x m')) :
      Made moves R S [] (settle fun m => Expression.run m scope (x m) typed)
  | tryLambda {α : Type} {hs : List Header} {path : String} {n : Node} {scope : Scope} {g : Result Expr → Build α}
      (hg : ∀ r : Result Expr, r.Told → Made moves R S hs (g r)) : Made moves R S hs (Build.tryLambda path n scope >>= g)
  | fits (e : Expr) (declared : Typed) (stub : String) (span : Span) : Made moves R S [] (Build.fits e declared stub span)
  | note {f : Model → Model} (h : Edits Noted S f) : Made moves R S [] (modify f)
  | edit {f : Model → Model} (h : Edits R S f) : Made moves R S [] (modify f)
  | register (h : Header) (content : ElementContent) (annotations : Annotations) :
      Made moves R S [h] (Build.register h content annotations)
  | wrap {α : Type} {hs : List Header} {x : Build α} {f : Failure → Failure} (hx : Made moves R S hs x)
      (hf : ∀ e, (f e).Told) : Made moves R S hs fun m => (x m).mapError f

variable {moves P : Prop} {R S : Model → Model → Prop} {o : Options} {hs hs' : List Header} {x : Build α} {g : α → Build β}

section Rules

theorem carries_bind {x' : Build α} {g' : α → Build β} (hx : Carries (x k) (x' k))
    (hg : ∀ a k, Carries (g a k) (g' a k)) : Carries ((x >>= g) k) ((x' >>= g') k) :=
  hx.bind fun r => hg r.1 r.2

theorem carries_liftM (h : r.Carries r') (k : Model) :
    Carries ((liftM r : Build α) k) ((liftM r' : Build α) k) :=
  h.bind fun _ => .refl _

theorem carries_check {r : Result PUnit} {g : PUnit → Build α} : Carries ((liftM r >>= g) k) (g ⟨⟩ k) := by
  cases r with
  | error f => exact carries_error f _
  | ok => exact .refl _

theorem Made.bind (hx : Made moves R S [] x) (hg : ∀ a, Made moves R S hs (g a)) : Made moves R S hs (x >>= g) := hx.seq hg

theorem Made.bind_only (hx : Made moves R S hs x) (hg : ∀ a, Made moves R S [] (g a)) : Made moves R S hs (x >>= g) :=
  append_nil hs ▸ hx.seq hg

theorem made_fail {p : Problem} (h : p.isStage = false) :
    Made moves R S hs (fail span p : Build α) := .throw (.inl (Failure.told_of span p h))

theorem made_unsupported (what : Unsupported) : Made moves R S hs (throw (.unsupported what) : Build α) :=
  .throw (.inl (Failure.told_unsupported what))

theorem made_liftM (h : r.Told) : Made moves R S [] (liftM r : Build α) := by
  cases r with
  | ok a => exact .pure a
  | error f => exact .throw (.inl (h f rfl))

theorem made_advance (hmoves : moves) (s next : Stage) : Made moves R S [] (liftM (s.advance next) : Build Stage) := by
  cases s.advance next with
  | ok a => exact .pure a
  | error f => exact .throw (.inr hmoves)

theorem made_ite [Decidable c] (hx : Made moves R S hs x) (hy : Made moves R S hs y) :
    Made moves R S hs (if c then x else y) := by
  split
  · exact hx
  · exact hy

theorem made_guard [Decidable c] {y : Build PUnit} {g : PUnit → Build β} (hy : Made moves R S [] y)
    (hg : ∀ u, Made moves R S hs (g u)) : Made moves R S hs (if c then y >>= g else g ⟨⟩) :=
  made_ite (hy.bind hg) (hg ⟨⟩)

theorem made_choice [Decidable c] (hx : Made moves R S [] x) (hy : Made moves R S [] y)
    (hg : ∀ a, Made moves R S hs (g a)) : Made moves R S hs (if c then x >>= g else y >>= g) :=
  made_ite (hx.bind hg) (hy.bind hg)

theorem made_mapM_flatMap {headers : α → List Header} (hg : ∀ a, Made moves R S (headers a) (g a)) :
    ∀ as : List α, Made moves R S (as.flatMap headers) (as.mapM g)
  | [] => .pure []
  | a :: as => by
    rw [mapM_cons]
    exact (hg a).seq fun b => (made_mapM_flatMap hg as).bind_only fun bs => .pure (b :: bs)

theorem made_mapM : ∀ {as : List α}, (∀ a ∈ as, Made moves R S [] (g a)) → Made moves R S [] (as.mapM g)
  | [], _ => .pure []
  | a :: as, h => by
    obtain ⟨ha, has⟩ := forall_mem_cons.1 h
    rw [mapM_cons]
    exact ha.bind fun b => (made_mapM has).bind fun bs => .pure (b :: bs)

theorem made_forM {g : α → Build PUnit} : ∀ {as : List α}, (∀ a ∈ as, Made moves R S [] (g a)) →
    Made moves R S [] (as.forM g)
  | [], _ => .pure PUnit.unit
  | a :: as, h => by
    obtain ⟨ha, has⟩ := forall_mem_cons.1 h
    exact ha.bind fun _ => made_forM has

theorem made_optionMapM (o : Option α) (h : ∀ a, Made moves R S [] (g a)) : Made moves R S [] (o.mapM g) := by
  cases o with
  | none => exact .pure none
  | some a => exact (h a).bind fun b => .pure (some b)

theorem made_get {g : Model → Build α} (hg : ∀ m, Made moves R S hs (g m)) (hsame : ∀ m m', S m m' → g m' = g m) :
    Made moves R S hs (get >>= g) :=
  .get hg fun m m' _ hm => hsame m m' hm ▸ .refl _

theorem made_context {g : Context → Build α} (hg : ∀ c, Made moves R S hs (g c))
    (hsame : ∀ m m', S m m' → g (.of m' path) = g (.of m path)) : Made moves R S hs (context path >>= g) :=
  made_get (fun m => hg (.of m path)) hsame

theorem made_context_gated {g : Context → Build α} (hg : ∀ c, Made moves R S hs (g c))
    (hsame : ∀ m m' k, S m m' → Carries (g (.of m path) k) (g (.of m' path) k)) :
    Made moves R S hs (context path >>= g) :=
  .get (fun m => hg (.of m path)) hsame

theorem made_read {g : Model → Build α} (hg : ∀ m, Made moves R (Under o) hs (g m))
    (hunder : ∀ m, g (m.under o) = g m) : Made moves R (Under o) hs (get >>= g) :=
  made_get hg fun m _ hm => hm.2 ▸ hunder m

theorem made_place {g : Context → Build α} (hg : ∀ c, Made moves R (Under o) hs (g c))
    (hunder : ∀ c, g (c.under o) = g c) : Made moves R (Under o) hs (context path >>= g) :=
  made_read (fun m => hg (.of m path)) fun m => hunder (.of m path)

theorem made_noting {f : Model → Model → Model} (hf : ∀ m, Edits Noted S (f m)) (hfsame : ∀ m m', S m m' → f m' = f m)
    (hok : ∀ m a n, x m = .ok (a, n) → n = f m m) (htold : x.Told)
    (hsame : ∀ m m', S m m' → (x m').map Prod.fst = (x m).map Prod.fst) : Made moves R S [] x := by
  have heq : x = get >>= fun m => liftM ((x m).map Prod.fst) >>= fun a => modify (f m) >>= fun _ => pure a := by
    funext m
    have hget {g : Model → Build α} : (get >>= g) m = g m m := rfl
    rw [hget]
    rcases hm : x m with e | ⟨a, n⟩
    · rfl
    · rw [hok m a n hm]
      rfl
  rw [heq]
  refine made_get (fun m => (made_liftM (htold m).map).bind fun a => ?_) fun m m' hm => by
    rw [hsame m m' hm, hfsame m m' hm]
  exact (Made.note (hf m)).bind fun _ => .pure a

theorem made_reading (hkeeps : ∀ m a n, x m = .ok (a, n) → n = m) (htold : x.Told)
    (hsame : ∀ m m', S m m' → (x m').map Prod.fst = (x m).map Prod.fst) : Made moves R S [] x :=
  made_noting (fun _ => ⟨.refl, fun _ => rfl, fun _ => prefix_rfl, fun _ _ hm => hm⟩)
    (fun _ _ _ => rfl) hkeeps htold hsame

theorem made_classOf (path : String) : Made moves R (Under o) [] (classOf path) :=
  made_read (fun _ => .pure _) fun _ => rfl

theorem made_setClass (path : String) (c : ClassContent) : Made moves Stays (Under o) [] (setClass path c) :=
  .edit (edits_setContent path _)

theorem made_imports {f : Model → List (String × List String)} (h : ∀ m, f (m.under o) = f m) :
    Made moves Stays (Under o) [] (modify fun m => { m with imports := f m } : Build PUnit) :=
  .edit ⟨fun _ => ⟨rfl, rfl, rfl⟩, fun _ => rfl, fun _ => prefix_rfl, fun m _ hm => ⟨hm.1, by
    rw [hm.2, h]
    rfl⟩⟩

theorem made_setContent [Sight S] (path : String)
    (hlisted : ∀ e : Element, e.content = content → e.isListed = false) (hmapping : content.mapping? = none) :
    Made moves Stays S [] (modify fun m => m.setContent path content : Build PUnit) :=
  .edit ⟨fun _ => stays_setContent content, fun _ => rfl, fun _ => prefix_rfl, fun _ _ hm =>
    Sight.setContent hm hlisted hmapping⟩

section

variable (path : String)

theorem made_value (n : Node) (scope : Scope) : Made moves R S [] (value path n scope) :=
  .run scope [] (fun _ s => compile_told _ n s) fun h => compile_agrees (h.context path) n

theorem made_body (ns : List Node) (scope : Scope) : Made moves R S [] (body path ns scope) :=
  .run scope [] (fun _ s => compileAll_told _ ns s) fun h => compileAll_agrees (h.context path) ns

theorem lambda_agrees (n : Node) (typed : List Typed) (h : m.Aligned P m') :
    (Expression.lambda (.of m path) n.attrs (n.parameters.map (·.attrs))
      (compileAll (.of m path) n.body) typed none).Agrees P
    (Expression.lambda (.of m' path) n.attrs (n.parameters.map (·.attrs))
      (compileAll (.of m' path) n.body) typed none) :=
  Expression.lambda_agrees (h.context path) (compileAll_agrees (h.context path) n.body) _ _ _ _

theorem made_runLambda (n : Node) (scope : Scope) (typed typed' : List Typed) :
    Made moves R S [] (settle fun m => run m scope (Expression.lambda (.of m path) n.attrs
      (n.parameters.map (·.attrs)) (compileAll (.of m path) n.body) typed none) typed') :=
  .run scope typed' (fun _ s => lambda_told _ _ _ n.body typed s) fun h => lambda_agrees path n typed h

theorem made_lambda (n : Node) (scope : Scope) (typed : List Typed) :
    Made moves R S [] (Build.lambda path n scope typed) :=
  made_runLambda path n scope typed typed

end

end Rules

/-! ### Where steps lead -/

/-- **Changes add up.** What holds of notes, of changes along `R` and of new elements, and goes on
from step to step, holds of the steps that are made of them. -/
theorem Made.follows (h : Made moves R (Under {}) hs x) {T : List Header → Model → Model → Prop}
    (hseq : ∀ {hs hs' m n k}, T hs m n → T hs' n k → T (hs ++ hs') m k) (hnote : ∀ {m n}, m.Noted n → T [] m n)
    (hedit : ∀ {m n}, R m n → T [] m n)
    (hregister : ∀ {h : Header} {content annotations m n},
      m.register h.package h.name h.span content annotations = .ok n → T [h] m n) :
    ∀ m, x.Ensures m fun _ n => T hs m n := by
  induction h with
  | pure => exact fun m => ensures_pure.2 (hnote (.refl m))
  | throw => exact fun _ => ensures_throw.2 trivial
  | seq _ _ ihx ihg => exact fun m => ensures_bind.2 ((ihx m).mono fun a n hn => (ihg a n).mono fun _ _ hk => hseq hn hk)
  | get _ _ ih => exact fun m => ensures_bind.2 (ensures_get.2 (ih m m))
  | run => exact fun m => ensures_settle.2 fun _ _ => hnote (run_noted m _ _ _)
  | @tryLambda _ _ path n scope _ _ ih =>
    intro m
    rw [ensures_bind, ensures_tryLambda]
    exact (ih _ (lambda_told _ _ _ _ _ _) _).mono fun _ _ hk => hseq (hnote (run_noted m _ _ _)) hk
  | fits => exact fun m => ensures_fits.2 fun _ _ => hnote (.refl m)
  | note h => exact fun m => ensures_modify.2 (hnote (h.along m))
  | edit h => exact fun m => ensures_modify.2 (hedit (h.along m))
  | register => exact fun _ => ensures_register.2 fun _ hadd => hregister hadd
  | wrap _ _ ih => exact fun m => ensures_mapError.2 (ih m)

theorem Made.notes (h : Made False Noted (Under {}) [] x) : x.Notes := fun m =>
  (h.follows (T := fun hs m n => hs = [] → m.Noted n) (fun h k hnil =>
    (h (append_eq_nil_iff.1 hnil).1).trans (k (append_eq_nil_iff.1 hnil).2)) (fun h _ => h) (fun h _ => h)
    nofun m).mono fun _ _ h => h rfl

/-- Wherever the step goes through, it takes in the elements of the headers. -/
def Enrols (x : Build α) (hs : List Header) : Prop := ∀ m, x.Ensures m fun _ m' => m.Enrolls hs m'

theorem Made.enrols (h : Made True Stays (Under {}) hs x) : x.Enrols hs :=
  h.follows (T := fun hs m n => m.Enrolls hs n) (fun h k => h.trans k) (fun h => .of_stays h.stays) (fun h => .of_stays h)
    fun h => .add .refl h

/-! ### How steps fail -/

theorem Made.told (h : Made False Stays (Under {}) hs x) : x.Told := by
  induction h with
  | pure a => exact throws_pure a
  | throw h => exact fun _ => throws_error (h.resolve_right id)
  | seq _ _ ihx ihg => exact ihx.bind ihg
  | get _ _ ih => exact throws_get.bind ih
  | run _ _ htold => exact throws_settle fun m => htold m _
  | tryLambda _ ih => exact fun _ => ih _ (lambda_told _ _ _ _ _ _) _
  | fits => exact fits_told _ _ _ _
  | note | edit => exact throws_modify _
  | register => exact register_told _ _ _
  | wrap _ hf =>
    rename_i x f _ _
    intro m e he
    rcases hm : x m with e' | a <;> simp only [hm] at he <;> cases he
    exact hf e'

/-! ### Steps side by side -/

/-- The step keeps the options and adds to the warnings. It comes to the same from a related model if
related models are under the same options, or if no warning is about a call that finds another
function than it names. -/
def Agrees (S : Model → Model → Prop) (x : Build α) : Prop :=
  ∀ m, x.Ensures m fun a n => n.options = m.options ∧ m.warnings <+: n.warnings ∧
    ∀ m', S m m' → Exact S ∨ Matched n.warnings → ∃ n', x m' = .ok (a, n') ∧ S n n'

theorem agrees_pure (a : α) : Agrees S (pure a : Build α) :=
  fun _ => ensures_pure.2 ⟨rfl, prefix_rfl, fun m' hm _ => ⟨m', rfl, hm⟩⟩

theorem Agrees.bind (hx : Agrees S x) (hg : ∀ a, Agrees S (g a)) : Agrees S (x >>= g) := by
  intro m
  rw [ensures_bind]
  refine (hx m).mono ?_
  rintro a n ⟨hn, hadds, hsame⟩
  refine (hg a n).mono ?_
  rintro b k ⟨hk, hadds', hsame'⟩
  refine ⟨hk.trans hn, hadds.trans hadds', fun m' hm h => ?_⟩
  obtain ⟨n', hn', hS⟩ := hsame m' hm (h.imp_right (·.before hadds'))
  obtain ⟨k', hk', hS'⟩ := hsame' n' hS h
  exact ⟨k', by rw [bind_run, hn']; exact hk', hS'⟩

theorem agrees_modify {f : Model → Model} (h : Edits R S f) : Agrees S (modify f) := fun m =>
  ensures_modify.2 ⟨h.options m, h.warnings m, fun m' hm _ => ⟨f m', rfl, h.same m m' hm⟩⟩

theorem Agrees.mapError (hx : Agrees S x) (f : Failure → Failure) : Agrees S fun m => (x m).mapError f := by
  intro m
  rw [ensures_mapError]
  refine (hx m).mono ?_
  rintro a n ⟨hn, hadds, hsame⟩
  refine ⟨hn, hadds, fun m' hm h => ?_⟩
  obtain ⟨n', hn', hS⟩ := hsame m' hm h
  exact ⟨n', by simp only [hn']; rfl, hS⟩

theorem Made.agrees [Sight S] (h : Made moves R S hs x) : Agrees S x := by
  induction h with
  | pure a => exact agrees_pure a
  | throw => exact fun _ => ensures_throw.2 trivial
  | seq _ _ ihx ihg => exact ihx.bind ihg
  | get _ hsame ih =>
    intro m
    intro a n hrun
    obtain ⟨hn, hadds, -⟩ := ih m m a n hrun
    exact ⟨hn, hadds, fun m' hm => (ih m' m a n (hsame m m' m hm _ hrun)).2.2 m' hm⟩
  | run scope typed _ hagrees =>
    intro m
    rw [ensures_settle]
    intro a ha
    refine ⟨rfl, prefix_append _ _, fun m' hm h => ?_⟩
    obtain ⟨ws, hws, hsame⟩ := run_agrees (hagrees (Sight.aligned hm)) m m' scope typed
    rw [hws] at h ⊢
    exact ⟨_, by rw [settle, hsame h, ha], Sight.warned hm ws⟩
  | @tryLambda _ _ path n scope g hg ih =>
    -- A lambda that fails does so in the other model too.
    intro m
    rw [ensures_bind, ensures_tryLambda]
    refine (ih _ (lambda_told _ _ _ _ _ _) _).mono ?_
    rintro a k ⟨hk, hadds, hsame⟩
    refine ⟨hk, (prefix_append _ _).trans hadds, fun m' hm h => ?_⟩
    obtain ⟨ws, hws, hrun⟩ := run_agrees (lambda_agrees path n [] (Sight.aligned hm)) m m' scope []
    have hcompiled : ((Context.of m path).compileLambda n scope).2 = { m with warnings := m.warnings ++ ws } := hws
    rw [hcompiled] at hadds hsame
    have hlambda : Build.tryLambda path n scope m' = _ := congrArg Except.ok (hrun (h.imp_right (·.before hadds)))
    obtain ⟨k', hk', hS⟩ := hsame _ (Sight.warned hm ws) h
    exact ⟨k', by rw [bind_run, hlambda]; exact hk', hS⟩
  | fits e declared =>
    intro m
    rw [ensures_fits]
    intro htype hmultiplicity
    refine ⟨rfl, prefix_rfl, fun m' hm _ => ⟨m', ?_, hm⟩⟩
    rw [Build.fits, (Sight.aligned hm).isSubType, htype, hmultiplicity]
    rfl
  | note h => exact agrees_modify h
  | edit h => exact agrees_modify h
  | register =>
    intro m
    rw [ensures_register]
    intro n hn
    obtain ⟨-, hoptions, hwarnings⟩ := register_under hn {}
    refine ⟨hoptions, hwarnings ▸ prefix_rfl, fun m' hm _ => ?_⟩
    obtain ⟨n', hn', hS⟩ := Sight.register hm hn
    exact ⟨n', by rw [Build.register, hn']; rfl, hS⟩
  | wrap _ _ ih => exact ih.mapError _

end Build
end ModelGraph
