/-
# What a step of a build ensures

`x.Ensures m Q` says: if the step `x` goes through from the model `m`, then `Q` holds of
what it gives and of the model it leaves. The rules below take a step apart along its
parts. Steps over a list keep what each of their items keeps, and passes one after
another what each pass keeps.

Key definitions: `Build.Ensures`, `Runs`.
Key theorems: `Build.ensures_mapM`, `Pass.ensures_each`, `runPasses_result`.
-/
import Mathlib.Data.List.Forall2
import ModelGraph.Build

namespace ModelGraph

open List hiding get modify

variable {I : Model → Prop} {path name : String} {qs : List Pass} {span : Span} {m m' : Model} {p : Pass}

section Results

variable {α β : Type}

theorem Result.bind_eq_ok {x : Result α} {f : α → Result β} {b : β} :
    (x >>= f) = .ok b ↔ ∃ a, x = .ok a ∧ f a = .ok b := by
  cases x with
  | error e => simp [bind, Except.bind]
  | ok a => simp [bind, Except.bind]

theorem Result.map_eq_ok {x : Result α} {f : α → β} {b : β} :
    x.map f = .ok b ↔ ∃ a, x = .ok a ∧ f a = b := by
  cases x <;> simp [Except.map]

theorem Result.toOption_eq_some {x : Result α} {a : α} : x.toOption = some a ↔ x = .ok a := by
  cases x <;> simp [Except.toOption]

instance Result.decidableExists {x : Result α} {P : α → Prop} [DecidablePred P] : Decidable (∃ a, x = .ok a ∧ P a) :=
  decidable_of_iff (x.toOption.any (P ·)) (by simp [Option.any_eq_true, toOption_eq_some])

instance Result.decidableExistsOk {x : Result α} : Decidable (∃ a, x = .ok a) :=
  decidable_of_iff (∃ a, x = .ok a ∧ True) (by simp)

instance decidableExistsSome {x : Option α} {P : α → Prop} [DecidablePred P] : Decidable (∃ a, x = some a ∧ P a) :=
  decidable_of_iff (x.any (P ·)) (by simp [Option.any_eq_true])

theorem Result.mapM_eq_ok {f : α → Result β} : ∀ {as : List α} {bs : List β},
    as.mapM f = .ok bs ↔ Forall₂ (fun a b => f a = .ok b) as bs
  | [], bs => by
    constructor
    · rintro ⟨⟩; exact .nil
    · rintro ⟨⟩; rfl
  | a :: as, bs => by
    rw [mapM_cons, Result.bind_eq_ok]
    constructor
    · rintro ⟨b, hb, h⟩
      obtain ⟨rest, hrest, h⟩ := Result.bind_eq_ok.1 h
      cases h
      exact .cons hb (Result.mapM_eq_ok.1 hrest)
    · rintro (_ | ⟨hb, h⟩)
      exact ⟨_, hb, Result.bind_eq_ok.2 ⟨_, Result.mapM_eq_ok.2 h, rfl⟩⟩

theorem exists_of_forall₂ {R : α → β → Prop} {as : List α} {bs : List β} {b : β} (h : Forall₂ R as bs)
    (hb : b ∈ bs) : ∃ a ∈ as, R a b := by
  induction h with
  | nil => cases hb
  | cons ha _ ih =>
    rcases mem_cons.1 hb with rfl | hb
    · exact ⟨_, mem_cons_self, ha⟩
    · obtain ⟨a, ha, hr⟩ := ih hb
      exact ⟨a, mem_cons_of_mem _ ha, hr⟩

theorem forall_mem_iff_of_forall₂ {R : α → β → Prop} {P : α → Prop} {Q : β → Prop} {as : List α}
    {bs : List β} (h : Forall₂ R as bs) (hR : ∀ a b, R a b → (Q b ↔ P a)) :
    (∀ b ∈ bs, Q b) ↔ ∀ a ∈ as, P a := by
  induction h with
  | nil => exact ⟨fun _ => forall_mem_nil _, fun _ => forall_mem_nil _⟩
  | cons hab _ ih => rw [forall_mem_cons, forall_mem_cons, hR _ _ hab, ih]

theorem Result.exists_of_mapM {f : α → Result β} {as : List α} {bs : List β} {b : β}
    (h : as.mapM f = .ok bs) (hb : b ∈ bs) : ∃ a ∈ as, f a = .ok b :=
  exists_of_forall₂ (R := fun a b => f a = .ok b) (Result.mapM_eq_ok.1 h) hb

theorem Result.forM_eq_ok {f : α → Result Unit} : ∀ {as : List α},
    as.forM f = .ok () ↔ ∀ a ∈ as, f a = .ok ()
  | [] => ⟨fun _ _ h => absurd h not_mem_nil, fun _ => rfl⟩
  | a :: as => by
    have hcons : (a :: as).forM f = f a >>= fun _ => as.forM f := rfl
    rw [hcons, Result.bind_eq_ok]
    constructor
    · rintro ⟨⟨⟩, ha, h⟩ x hx
      rcases mem_cons.1 hx with rfl | hx
      · exact ha
      · exact Result.forM_eq_ok.1 h x hx
    · exact fun h => ⟨(), h a (.head _),
        Result.forM_eq_ok.2 fun x hx => h x (.tail _ hx)⟩

end Results

namespace Build

variable {α β : Type} {m : Model} {Q : α → Model → Prop}

/-- If the step goes through, `Q` holds of its result and of the model it leaves. -/
def Ensures (x : Build α) (m : Model) (Q : α → Model → Prop) : Prop :=
  ∀ a m', x m = .ok (a, m') → Q a m'

theorem Ensures.mono {x : Build α} {R : α → Model → Prop} (h : x.Ensures m Q)
    (hr : ∀ a m', Q a m' → R a m') : x.Ensures m R := fun a m' e => hr a m' (h a m' e)

theorem Ensures.and {x : Build α} {R : α → Model → Prop} (h : x.Ensures m Q) (k : x.Ensures m R) :
    x.Ensures m fun a m' => Q a m' ∧ R a m' := fun a m' e => ⟨h a m' e, k a m' e⟩

theorem ensures_of_run {x : Build α} {a : α} {n : Model} (hx : x m = .ok (a, n)) : x.Ensures m Q ↔ Q a n := by
  constructor
  · exact fun h => h a n hx
  · intro h b m' hb
    cases hx.symm.trans hb
    exact h

@[simp] theorem ensures_pure {a : α} : (pure a : Build α).Ensures m Q ↔ Q a m := ensures_of_run rfl

theorem bind_run (x : Build α) (f : α → Build β) (m : Model) :
    (x >>= f) m = match x m with
      | .ok (a, m') => f a m'
      | .error e => .error e := by
  show StateT.bind x f m = _
  unfold StateT.bind
  cases x m <;> rfl

@[simp] theorem ensures_bind {x : Build α} {f : α → Build β} {Q : β → Model → Prop} :
    (x >>= f).Ensures m Q ↔ x.Ensures m fun a m' => (f a).Ensures m' Q := by
  constructor
  · intro h a m' ha b m'' hb
    exact h b m'' (by rw [bind_run, ha]; exact hb)
  · intro h b m'' hb
    rw [bind_run] at hb
    rcases hx : x m with e | ⟨a, m'⟩ <;> rw [hx] at hb
    · cases hb
    · exact h a m' hx b m'' hb

@[simp] theorem ensures_get {Q : Model → Model → Prop} : (get : Build Model).Ensures m Q ↔ Q m m :=
  ensures_of_run rfl

@[simp] theorem ensures_modify {f : Model → Model} {Q : PUnit → Model → Prop} :
    (modify f : Build PUnit).Ensures m Q ↔ Q ⟨⟩ (f m) := ensures_of_run rfl

@[simp] theorem ensures_liftM {r : Result α} :
    (liftM r : Build α).Ensures m Q ↔ ∀ a, r = .ok a → Q a m := by
  constructor
  · intro h a hr; exact h a m (by rw [hr]; rfl)
  · intro h a m' e
    cases r with
    | error => cases e
    | ok b => cases e; exact h _ rfl

@[simp] theorem ensures_throw {e : Failure} : (throw e : Build α).Ensures m Q ↔ True :=
  ⟨fun _ => trivial, fun _ _ _ h => nomatch h⟩

@[simp] theorem ensures_fail {p : Problem} : (fail span p : Build α).Ensures m Q ↔ True :=
  ⟨fun _ => trivial, fun _ _ _ h => nomatch h⟩

@[simp] theorem ensures_ite {c : Prop} [Decidable c] {x y : Build α} :
    (if c then x else y).Ensures m Q ↔ (c → x.Ensures m Q) ∧ (¬ c → y.Ensures m Q) := by
  split <;> simp_all

/-! ### Steps over lists -/

theorem ensures_forM_done {f : α → Build PUnit} (J : List α → Model → Prop) : ∀ (as : List α) {m : Model}, J [] m →
    (∀ pre a post, as = pre ++ a :: post → ∀ m, J pre m → (f a).Ensures m fun _ m' => J (pre ++ [a]) m') →
    (as.forM f).Ensures m fun _ m' => J as m'
  | [], m, hm, _ => by
    rintro _ _ ⟨⟩
    exact hm
  | a :: as, m, hm, h => by
    show (f a >>= fun _ => as.forM f).Ensures m _
    rw [ensures_bind]
    refine (h [] a as rfl m hm).mono fun _ m' hm' => ?_
    exact ensures_forM_done (fun done => J (a :: done)) as hm' fun pre b post e => h (a :: pre) b post (by rw [e]; rfl)

theorem forM_congr_done {f g : α → Build PUnit} (J : List α → Model → Prop) : ∀ (as : List α) {m : Model}, J [] m →
    (∀ pre a post, as = pre ++ a :: post → ∀ m, J pre m →
      f a m = g a m ∧ (f a).Ensures m fun _ m' => J (pre ++ [a]) m') → as.forM f m = as.forM g m
  | [], m, _, _ => rfl
  | a :: as, m, hm, h => by
    show (f a >>= fun _ => as.forM f) m = (g a >>= fun _ => as.forM g) m
    obtain ⟨hsame, hnext⟩ := h [] a as rfl m hm
    rw [bind_run, bind_run, ← hsame]
    rcases hrun : f a m with e | ⟨⟨⟩, n⟩
    · rfl
    · exact forM_congr_done (fun done => J (a :: done)) as (hnext () n hrun) fun pre b post e =>
        h (a :: pre) b post (by rw [e]; rfl)

theorem ensures_forM {f : α → Build PUnit} {as : List α} (hm : I m)
    (h : ∀ a ∈ as, ∀ m, I m → (f a).Ensures m fun _ m' => I m') : (as.forM f).Ensures m fun _ m' => I m' :=
  ensures_forM_done (fun _ => I) as hm fun _ a _ e n hn =>
    h a (e ▸ mem_append_right _ (.head _)) n hn

theorem ensures_mapM_done {f : α → Build β} (J : List α → List β → Model → Prop) :
    ∀ (as : List α) {m : Model}, J [] [] m → (∀ pre a post, as = pre ++ a :: post → ∀ bs m, J pre bs m →
      (f a).Ensures m fun b m' => J (pre ++ [a]) (bs ++ [b]) m') → (as.mapM f).Ensures m fun bs m' => J as bs m'
  | [], m, hm, _ => by
    rw [mapM_nil, ensures_pure]
    exact hm
  | a :: as, m, hm, h => by
    rw [mapM_cons, ensures_bind]
    refine (h [] a as rfl [] m hm).mono fun b m' hb => ?_
    rw [ensures_bind]
    refine (ensures_mapM_done (fun done bs => J (a :: done) (b :: bs)) as hb fun pre c post e bs =>
      h (a :: pre) c post (by rw [e]; rfl) (b :: bs)).mono fun bs n hn => ?_
    rw [ensures_pure]
    exact hn

theorem ensures_mapM {f : α → Build β} {as : List α} {J : List β → Model → Prop} (hm : J [] m)
    (h : ∀ a ∈ as, ∀ bs m, J bs m → (f a).Ensures m fun b m' => J (bs ++ [b]) m') :
    (as.mapM f).Ensures m fun bs m' => J bs m' :=
  ensures_mapM_done (fun _ => J) as hm fun _ a _ e bs n hn =>
    h a (e ▸ mem_append_right _ (.head _)) bs n hn

theorem ensures_mapM_forall₂ {f : α → Build β} {R : α → β → Prop} {as : List α} (hm : I m)
    (h : ∀ a ∈ as, ∀ m, I m → (f a).Ensures m fun b m' => I m' ∧ R a b) :
    (as.mapM f).Ensures m fun bs m' => I m' ∧ Forall₂ R as bs :=
  ensures_mapM_done (fun done bs n => I n ∧ Forall₂ R done bs) as ⟨hm, .nil⟩ fun _ a _ e _ n hn =>
    (h a (e ▸ mem_append_right _ (.head _)) n hn.1).mono fun _ _ hb =>
      ⟨hb.1, rel_append hn.2 (.cons hb.2 .nil)⟩

theorem ensures_mapM_liftM {f : α → Result β} {Q : List β → Model → Prop} :
    ∀ {as : List α}, (∀ bs, Forall₂ (fun a b => f a = .ok b) as bs → Q bs m) →
      (as.mapM fun a => (liftM (f a) : Build β)).Ensures m Q
  | [], h => by
    rw [mapM_nil, ensures_pure]
    exact h [] .nil
  | a :: as, h => by
    rw [mapM_cons, ensures_bind, ensures_liftM]
    intro b hb
    rw [ensures_bind]
    refine ensures_mapM_liftM fun bs hbs => ?_
    rw [ensures_pure]
    exact h (b :: bs) (.cons hb hbs)

theorem ensures_optionMapM {f : α → Build β} {Q : Option β → Model → Prop} {o : Option α}
    (hn : o = none → Q none m) (hs : ∀ a, o = some a → (f a).Ensures m fun b m' => Q (some b) m') :
    (o.mapM f).Ensures m Q := by
  cases o with
  | none => exact ensures_pure.2 (hn rfl)
  | some a =>
    show (f a >>= fun b => pure (some b)).Ensures m Q
    rw [ensures_bind]
    exact (hs a rfl).mono fun b m' hb => ensures_pure.2 hb

theorem ensures_mapError {x : Build α} {f : Failure → Failure} :
    Ensures (fun m => (x m).mapError f) m Q ↔ x.Ensures m Q := by
  constructor
  · intro h a m' e
    exact h a m' (by simp only [e]; rfl)
  · intro h a m' e
    rcases hx : x m with f | ⟨b, n⟩ <;> simp only [hx] at e
    · cases e
    · cases e
      exact h _ _ hx

/-! ### Parts of steps -/

@[simp] theorem ensures_context {Q : Context → Model → Prop} :
    (context path).Ensures m Q ↔ Q (Context.of m path) m := ensures_of_run rfl

@[simp] theorem ensures_classOf {Q : ClassContent → Model → Prop} :
    (classOf path).Ensures m Q ↔ Q ((m.class? path).getD {}) m := ensures_of_run rfl

@[simp] theorem ensures_setClass {c : ClassContent} {Q : Unit → Model → Prop} :
    (setClass path c).Ensures m Q ↔ Q () (m.setContent path (.classType c)) := ensures_modify

theorem ensures_settle {x : Model → Result α × Model} :
    (settle x).Ensures m Q ↔ ∀ a, (x m).1 = .ok a → Q a (x m).2 := by
  unfold Ensures settle
  rcases x m with ⟨_ | a, n⟩
  · simp
  · simp only [Except.ok.injEq, Prod.mk.injEq]
    exact ⟨fun h b hb => h b n ⟨hb, rfl⟩, fun h b n' hb => hb.2 ▸ h b hb.1⟩

@[simp] theorem ensures_tryLambda {n : Node} {scope : Scope} {Q : Result Expr → Model → Prop} :
    (tryLambda path n scope).Ensures m Q ↔
      Q ((Context.of m path).compileLambda n scope).1 ((Context.of m path).compileLambda n scope).2 :=
  ensures_of_run rfl

theorem ensures_fits {e : Expr} {declared : Typed} {stub : String} {Q : Unit → Model → Prop} :
    (fits e declared stub span).Ensures m Q ↔
      (m.isSubType e.raw declared.1.raw = true → declared.2.subsumes e.multiplicity = true → Q () m) := by
  unfold Ensures fits
  by_cases h : m.isSubType e.raw declared.1.raw = true
  · by_cases k : declared.2.subsumes e.multiplicity = true
    · simp only [h, k, true_imp_iff]
      exact ⟨fun hq => hq () m rfl, by rintro hq _ _ ⟨⟩; exact hq⟩
    · simp [h, k, failAt]
  · simp [h, failAt]

theorem ensures_register {header : Header} {content : ElementContent} {annotations : Annotations}
    {Q : Unit → Model → Prop} :
    (register header content annotations).Ensures m Q ↔
      ∀ m', m.register header.package header.name header.span content annotations = .ok m' → Q () m' := by
  unfold Ensures register
  rcases m.register header.package header.name header.span content annotations with f | n
  · simp [Except.map]
  · exact ⟨fun h m' e => h () m' (by rw [e]; rfl), by rintro h _ _ ⟨⟩; exact h n rfl⟩

end Build

/-! ### Passes -/

theorem Pass.ensures_each {α : Type} {decls : List α} {header : α → Header}
    {step : α → Build Unit} {J : List α → Model → Prop} (hm : J [] m)
    (h : ∀ pre d post, decls = pre ++ d :: post → ∀ m, J pre m → (step d).Ensures m fun _ m' => J (pre ++ [d]) m') :
    (Pass.each name decls header step).run.Ensures m fun _ m' => J decls m' :=
  Build.ensures_forM_done J decls hm fun pre d post e n hn =>
    Build.ensures_mapError.2 (h pre d post e n hn)

theorem Pass.ensures_each_keeps {α : Type} {decls : List α} {header : α → Header}
    {step : α → Build Unit} (hm : I m) (h : ∀ d ∈ decls, ∀ m, I m → (step d).Ensures m fun _ m' => I m') :
    (Pass.each name decls header step).run.Ensures m fun _ m' => I m' :=
  Pass.ensures_each (J := fun _ => I) hm fun _ d _ e n hn =>
    h d (e ▸ mem_append_right _ (.head _)) n hn

namespace Pass

variable {α : Type} {name : String} {header : α → Header} {step : α → Build Unit} {m m' : Model}

theorem each_cons {a : α} {as : List α} :
    (each name (a :: as) header step).run m = .ok ((), m') ↔
      ∃ n, step a m = .ok ((), n) ∧ (each name as header step).run n = .ok ((), m') := by
  have h : (each name (a :: as) header step).run =
      (fun m => (step a m).mapError fun f => f.anchor (header a).path (header a).span : Build Unit) >>=
        fun _ => (each name as header step).run := rfl
  rw [h, Build.bind_run]
  rcases step a m with e | ⟨⟨⟩, n⟩ <;> simp [Except.mapError]

theorem each_append {as bs : List α} :
    (each name (as ++ bs) header step).run m = .ok ((), m') ↔
      ∃ n, (each name as header step).run m = .ok ((), n) ∧
        (each name bs header step).run n = .ok ((), m') := by
  induction as generalizing m with
  | nil =>
    constructor
    · exact fun h => ⟨m, rfl, h⟩
    · rintro ⟨n, h, h'⟩
      cases h
      exact h'
  | cons a as ih =>
    rw [cons_append]
    simp only [each_cons]
    grind

end Pass

/-- Passes that go through one after another. -/
def Runs : List Pass → Model → Model → Prop
  | [], m, m' => m = m'
  | p :: ps, m, m' => ∃ n, p.run m = .ok ((), n) ∧ Runs ps n m'

theorem runPasses_result : ∀ (ps : List Pass) (m : Model), (runPasses ps m).result = .ok m' ↔ Runs ps m m'
  | [], m => by simp [runPasses, Runs]
  | p :: ps, m => by
    unfold runPasses Runs
    rcases p.run m with f | ⟨⟨⟩, n⟩
    · simp
    · simpa using runPasses_result ps n

theorem runs_append : ∀ (ps : List Pass) (m : Model), Runs (ps ++ qs) m m' ↔ ∃ n, Runs ps m n ∧ Runs qs n m'
  | [], m => by simp [Runs]
  | p :: ps, m => by
    constructor
    · rintro ⟨n, hp, h⟩
      obtain ⟨k, hps, hqs⟩ := (runs_append ps n).1 h
      exact ⟨k, ⟨n, hp, hps⟩, hqs⟩
    · rintro ⟨k, ⟨n, hp, hps⟩, hqs⟩
      exact ⟨n, hp, (runs_append ps n).2 ⟨k, hps, hqs⟩⟩

theorem runPasses_error {f : Failure} (hp : p.run m' = .error f) :
    ∀ (ps : List Pass) (m : Model), Runs ps m m' → (runPasses (ps ++ p :: qs) m).result = .error f
  | [], m, h => by
    rw [nil_append, runPasses, h, hp]
  | q :: ps, m, h => by
    obtain ⟨n, hq, h⟩ := h
    rw [cons_append, runPasses, hq]
    exact runPasses_error hp ps n h

theorem eq_of_split {q : Pass} {post : List Pass} (hp : p.name = name)
    (hqs : ∀ r ∈ qs, r.name ≠ name) : ∀ {pre ps : List Pass}, (∀ r ∈ ps, r.name ≠ name) →
      ps ++ q :: qs = pre ++ p :: post → pre = ps ∧ p = q
  | [], [], _, h => ⟨rfl, (List.cons.inj h).1.symm⟩
  | [], r :: ps, hps, h => absurd hp ((List.cons.inj h).1 ▸ hps r (.head _))
  | r :: pre, [], _, h => by
    have hmem : p ∈ qs := (List.cons.inj h).2 ▸ mem_append_right _ (.head _)
    exact absurd hp (hqs p hmem)
  | r :: pre, r' :: ps, hps, h => by
    obtain ⟨rfl, htail⟩ := List.cons.inj h
    obtain ⟨rfl, rfl⟩ := eq_of_split hp hqs (fun r hr => hps r (.tail _ hr)) htail
    exact ⟨rfl, rfl⟩

end ModelGraph
