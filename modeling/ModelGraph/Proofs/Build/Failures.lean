/-
# How steps fail

`Build.Throws P x` says that every failure of the step `x` satisfies `P`, in whatever model it
is run. The rules below take a step apart along its parts. A run of passes fails where the
first of them does.

Key definitions: `Result.Throws`, `Build.Throws`.
Key theorems: `Build.Throws.bind`, `Build.throws_forM`, `exists_failed`.
-/
import ModelGraph.Proofs.Build.Logic

namespace ModelGraph

open Result

open List hiding get modify

variable {f : Failure} {c : Prop} {span : Span} {problem : Problem} {m : Model}

variable {α β : Type} {P Q : Failure → Prop}

namespace Result

def Throws (P : Failure → Prop) (r : Result α) : Prop := ∀ f, r = .error f → P f

theorem Throws.mono {r : Result α} (h : Throws P r) (hq : ∀ f, P f → Q f) : Throws Q r :=
  fun f hf => hq f (h f hf)

theorem throws_ok (a : α) : Throws P (.ok a : Result α) := fun _ h => nomatch h

theorem throws_error (h : P f) : Throws P (.error f : Result α) := by
  rintro _ ⟨⟩
  exact h

theorem throws_failAt (h : P (.of span problem)) : Throws P (failAt span problem : Result α) := throws_error h

theorem Throws.bind {r : Result α} {g : α → Result β} (hr : Throws P r) (hg : ∀ a, Throws P (g a)) :
    Throws P (r >>= g) := by
  intro f hf
  cases r with
  | error e => exact hr f (by cases hf; rfl)
  | ok a => exact hg a f hf

theorem Throws.map {r : Result α} {g : α → β} (hr : Throws P r) : Throws P (r.map g) := by
  intro f hf
  cases r with
  | error e => exact hr f (by cases hf; rfl)
  | ok a => cases hf

theorem throws_ite [Decidable c] {r s : Result α} (hr : Throws P r) (hs : Throws P s) :
    Throws P (if c then r else s) := by
  split
  · exact hr
  · exact hs

theorem throws_guard [Decidable c] {r : Result PUnit} {g : PUnit → Result β} (hr : Throws P r)
    (hg : ∀ u, Throws P (g u)) : Throws P (if c then r >>= g else g ⟨⟩) :=
  throws_ite (hr.bind hg) (hg ⟨⟩)

theorem throws_choice [Decidable c] {r s : Result α} {g : α → Result β} (hr : Throws P r) (hs : Throws P s)
    (hg : ∀ a, Throws P (g a)) : Throws P (if c then r >>= g else s >>= g) :=
  throws_ite (hr.bind hg) (hs.bind hg)

theorem throws_mapM {g : α → Result β} : ∀ {as : List α}, (∀ a ∈ as, Throws P (g a)) → Throws P (as.mapM g)
  | [], _ => by
    exact throws_ok _
  | a :: as, h => by
    obtain ⟨ha, has⟩ := forall_mem_cons.1 h
    rw [mapM_cons]
    exact ha.bind fun _ => (throws_mapM has).bind fun _ => throws_ok _

theorem throws_forM {g : α → Result PUnit} : ∀ {as : List α}, (∀ a ∈ as, Throws P (g a)) → Throws P (as.forM g)
  | [], _ => throws_ok _
  | a :: as, h => by
    obtain ⟨ha, has⟩ := forall_mem_cons.1 h
    have hrest : Throws P (as.forM g) := throws_forM has
    exact ha.bind fun _ => hrest

def failsWith (test : Failure → Bool) : Result α → Bool
  | .ok _ => false
  | .error f => test f

theorem exists_of_failsWith {test : Failure → Bool} {r : Result α} (h : failsWith test r = true) :
    ∃ f, r = .error f ∧ test f = true := by
  cases r with
  | ok a => cases h
  | error f => exact ⟨f, rfl, h⟩

end Result

namespace Build

/-- Every failure of the step satisfies `P`. -/
def Throws (P : Failure → Prop) (x : Build α) : Prop := ∀ m, Result.Throws P (x m)

theorem throws_pure (a : α) : Throws P (pure a : Build α) := fun _ => throws_ok _

theorem throws_fail (h : P (.of span problem)) :
    Throws P (fail span problem : Build α) := fun _ => throws_error h

theorem Throws.bind {x : Build α} {g : α → Build β} (hx : Throws P x) (hg : ∀ a, Throws P (g a)) :
    Throws P (x >>= g) := by
  intro m f hf
  rw [bind_run] at hf
  rcases hm : x m with e | ⟨a, m'⟩ <;> rw [hm] at hf
  · exact hx m f (by cases hf; exact hm)
  · exact hg a m' f hf

theorem throws_get : Throws P (get : Build Model) := fun _ => throws_ok _

theorem throws_set (n : Model) : Throws P (set n : Build PUnit) := fun _ => throws_ok _

theorem throws_modify (g : Model → Model) : Throws P (modify g : Build PUnit) := fun _ => throws_ok _

theorem throws_classOf (path : String) : Throws P (classOf path) := fun _ => throws_ok _

theorem throws_setClass (path : String) (c : ClassContent) : Throws P (setClass path c) :=
  throws_modify _

theorem throws_liftM {r : Result α} (h : Result.Throws P r) : Throws P (liftM r : Build α) := by
  intro m f hf
  cases r with
  | error e => exact h f (by cases hf; rfl)
  | ok a => cases hf

theorem throws_ite [Decidable c] {x y : Build α} (hx : Throws P x) (hy : Throws P y) :
    Throws P (if c then x else y) := by
  split
  · exact hx
  · exact hy

theorem throws_guard [Decidable c] {x : Build PUnit} {g : PUnit → Build β} (hx : Throws P x)
    (hg : ∀ u, Throws P (g u)) : Throws P (if c then x >>= g else g ⟨⟩) :=
  throws_ite (hx.bind hg) (hg ⟨⟩)

theorem throws_bind_at {x : Build α} {g : α → Build β} (hx : Result.Throws P (x m))
    (hg : x.Ensures m fun a m' => Result.Throws P (g a m')) : Result.Throws P ((x >>= g) m) := by
  intro f hf
  rw [bind_run] at hf
  rcases hm : x m with e | ⟨a, m'⟩ <;> rw [hm] at hf
  · exact hx f (by cases hf; exact hm)
  · exact hg a m' hm f hf

theorem throws_settle {x : Model → Result α × Model} (h : ∀ m, Result.Throws P (x m).1) :
    Throws P (settle x) := by
  intro m f hf
  unfold settle at hf
  rcases hm : x m with ⟨e | a, n⟩ <;> rw [hm] at hf
  · cases hf
    exact h m f (by rw [hm])
  · cases hf

theorem throws_mapM {g : α → Build β} : ∀ {as : List α}, (∀ a ∈ as, Throws P (g a)) → Throws P (as.mapM g)
  | [], _ => by
    exact throws_pure _
  | a :: as, h => by
    obtain ⟨ha, has⟩ := forall_mem_cons.1 h
    rw [mapM_cons]
    exact ha.bind fun _ => (throws_mapM has).bind fun _ => throws_pure _

theorem throws_forM {g : α → Build PUnit} : ∀ {as : List α}, (∀ a ∈ as, Throws P (g a)) → Throws P (as.forM g)
  | [], _ => throws_pure _
  | a :: as, h => by
    obtain ⟨ha, has⟩ := forall_mem_cons.1 h
    have hrest : Throws P (as.forM g) := throws_forM has
    exact ha.bind fun _ => hrest

theorem throws_forM_at {g : α → Build PUnit} : ∀ {l : List α},
    (∀ a ∈ l, Result.Throws P (g a m)) → (∀ a ∈ l, ∀ n, g a m = .ok (⟨⟩, n) → n = m) →
      Result.Throws P (l.forM g m)
  | [], _, _ => throws_ok _
  | a :: as, h, hk => by
    obtain ⟨ha, has⟩ := forall_mem_cons.1 h
    obtain ⟨hka, hkas⟩ := forall_mem_cons.1 hk
    intro f hf
    have hcons : (a :: as).forM g m = (g a >>= fun _ => as.forM g) m := rfl
    rw [hcons, bind_run] at hf
    rcases hga : g a m with e | ⟨⟨⟩, n⟩ <;> rw [hga] at hf
    · exact ha f (by cases hf; exact hga)
    · cases hka n hga
      exact throws_forM_at has hkas f hf

theorem throws_register {header : Header} {content : ElementContent} {annotations : Annotations}
    (h : ∀ problem, P (.of header.span problem)) : Throws P (register header content annotations) := by
  intro m
  refine Result.Throws.map ?_
  refine Result.throws_ite (throws_failAt (h _)) ?_
  split
  · exact throws_failAt (h _)
  · exact Result.throws_ite (throws_failAt (h _)) (throws_ok _)

theorem exists_of_forM {g : α → Build PUnit} : ∀ {as : List α} {m : Model}, as.forM g m = .error f →
    ∃ i a n, as[i]? = some a ∧ (as.take i).forM g m = .ok ((), n) ∧ g a n = .error f
  | [], m, h => nomatch h
  | a :: as, m, h => by
    change (g a >>= fun _ => as.forM g) m = _ at h
    rw [bind_run] at h
    rcases ha : g a m with e | ⟨⟨⟩, n⟩ <;> rw [ha] at h
    · cases h
      exact ⟨0, a, m, rfl, rfl, ha⟩
    · obtain ⟨i, b, n', hb, hbefore, hfail⟩ := exists_of_forM h
      refine ⟨i + 1, b, n', hb, ?_, hfail⟩
      show (g a >>= fun _ => (as.take i).forM g) m = _
      rw [bind_run, ha]
      exact hbefore

end Build

/-- A run of passes that fails does so in a pass, after those before it went through. -/
theorem exists_failed : ∀ (ps : List Pass) (m : Model), (runPasses ps m).result = .error f →
    ∃ pre p post n, ps = pre ++ p :: post ∧ Runs pre m n ∧ p.run n = .error f
  | [], m, h => nomatch h
  | p :: ps, m, h => by
    unfold runPasses at h
    rcases hp : p.run m with e | ⟨⟨⟩, n⟩ <;> rw [hp] at h
    · cases h
      exact ⟨[], p, ps, m, rfl, rfl, hp⟩
    · obtain ⟨pre, q, post, n', hps, hruns, hq⟩ := exists_failed ps n h
      exact ⟨p :: pre, q, post, n', by rw [hps, cons_append], ⟨n, hp, hruns⟩, hq⟩

end ModelGraph
