/-
# Two builds side by side

A step that goes through from one model goes through from another one, with the same
outcome, if the models are alike in what the step reads. How much that is depends on the
step: some read nothing of mappings, others what they include or what their class
mappings are of.

Key definitions: `Build.Simulates`.
Key theorems: `Build.Made.simulates`, `Build.simulates_forM_perm`, `Pass.simulates_each_perm`.
-/
import ModelGraph.Proofs.Build.Made

namespace ModelGraph

open Model List

variable {α β γ : Type} {x x' y : Build α} {f : α → Build PUnit} {as bs : List α}

namespace Build

/-- Where the first step goes through, the second one does from a related model, with the
same outcome, and leaves related models. -/
def Simulates (R : Model → Model → Prop) (x x' : Build α) : Prop :=
  ∀ ⦃m m'⦄, R m m' → x.Ensures m fun a n => ∃ n', x' m' = .ok (a, n') ∧ R n n'

section Simulates

variable {R : Model → Model → Prop} {m m' : Model}

theorem simulates_pure (a : α) : Simulates R (pure a : Build α) (pure a) :=
  fun _ m' h => ensures_pure.2 ⟨m', rfl, h⟩

theorem Simulates.bind {f f' : α → Build β} (hx : Simulates R x x')
    (hf : ∀ a, Simulates R (f a) (f' a)) : Simulates R (x >>= f) (x' >>= f') := by
  intro m m' h
  rw [ensures_bind]
  refine (hx h).mono ?_
  rintro a n ⟨n', hn', hn⟩
  refine (hf a hn).mono ?_
  rintro b k ⟨k', hk', hk⟩
  exact ⟨k', by rw [bind_run, hn']; exact hk', hk⟩

theorem simulates_get {f f' : Model → Build α} (h : ∀ m m', R m m' → Simulates R (f m) (f' m')) :
    Simulates R (get >>= f) (get >>= f') := by
  intro m m' hm
  exact h m m' hm hm

theorem simulates_ite {c : Prop} [Decidable c] {y' : Build α} (hx : Simulates R x x')
    (hy : Simulates R y y') : Simulates R (if c then x else y) (if c then x' else y') := by
  split
  · exact hx
  · exact hy

theorem simulates_forM {f' : α → Build PUnit} : ∀ {as : List α}, (∀ a ∈ as, Simulates R (f a) (f' a)) →
    Simulates R (as.forM f) (as.forM f')
  | [], _ => simulates_pure PUnit.unit
  | a :: _, h =>
    (h a (.head _)).bind fun _ => simulates_forM fun x hx => h x (mem_cons_of_mem a hx)

end Simulates

variable {view : String → Mapping → γ} {m m' : Model}

/-- A step goes through from models that are alike in what it reads. -/
theorem Made.simulates {hs : List Header} (h : Made True Stays (LikeIn view) hs x) : Simulates (LikeIn view) x x :=
  fun m m' hm => (h.agrees m).mono fun _ _ hn => hn.2.2 m' hm (.inl fun _ _ => LikeIn.options)

/-! ### Steps in another order -/

section Order

variable {R : Model → Model → Prop}

theorem Simulates.trans {z : Build α} (hrefl : ∀ m, R m m) (htrans : ∀ {m n k}, R m n → R n k → R m k)
    (hxy : Simulates R x y) (hyz : Simulates R y z) : Simulates R x z := by
  intro m k hm a n hn
  obtain ⟨n', hn', hlike⟩ := hxy (hrefl m) a n hn
  obtain ⟨k', hk', hlike'⟩ := hyz hm a n' hn'
  exact ⟨k', hk', htrans hlike hlike'⟩

/-- **Steps in another order.** If each step goes through from a related model as well, and
so do any two steps the other way round, then so do all steps in any order. -/
theorem simulates_forM_perm (hrefl : ∀ m, R m m)
    (htrans : ∀ {m n k}, R m n → R n k → R m k) (hperm : as.Perm bs) (hnodup : as.Nodup)
    (hstep : ∀ a ∈ as, Simulates R (f a) (f a))
    (hswap : ∀ a ∈ as, ∀ b ∈ as, a ≠ b → Simulates R (f a >>= fun _ => f b) (f b >>= fun _ => f a)) :
    Simulates R (as.forM f) (bs.forM f) := by
  induction hperm with
  | nil => exact simulates_pure PUnit.unit
  | @cons a as bs _ ih =>
    have hrest := ih hnodup.of_cons (fun b hb => hstep b (mem_cons_of_mem a hb))
      fun b hb c hc => hswap b (mem_cons_of_mem a hb) c (mem_cons_of_mem a hc)
    exact (hstep a (.head _)).bind fun _ => hrest
  | swap a b as =>
    have hne : b ≠ a := fun h => (nodup_cons.1 hnodup).1 (h ▸ (.head _))
    have hrest : Simulates R (as.forM f) (as.forM f) := simulates_forM fun c hc =>
      hstep c (.tail _ (.tail _ hc))
    have htwo := (hswap b (.head _) a (mem_cons_of_mem b (.head _)) hne).bind
      fun _ => hrest
    rwa [bind_assoc, bind_assoc] at htwo
  | @trans as bs cs hab _ ih ih' =>
    exact .trans hrefl htrans (ih hnodup hstep hswap) (ih' (hab.nodup_iff.1 hnodup)
      (fun b hb => hstep b (hab.mem_iff.2 hb))
      fun b hb c hc => hswap b (hab.mem_iff.2 hb) c (hab.mem_iff.2 hc))

end Order

theorem simulates_perm_of_notes (hperm : as.Perm bs) (hnodup : as.Nodup)
    (hf : ∀ a, (f a).Notes) (hsame : ∀ a, Simulates (LikeIn view) (f a) (f a)) :
    Simulates (LikeIn view) (as.forM f) (bs.forM f) := by
  refine simulates_forM_perm .refl .trans hperm hnodup (fun a _ => hsame a) fun a _ b _ _ m k hm => ?_
  rw [ensures_bind]
  intro _ n hn _ n' hn'
  obtain ⟨k₁, hk₁, -⟩ := hsame b (hm.noted (hf a _ _ _ hn) (.refl k)) _ _ hn'
  obtain ⟨k₂, hk₂, -⟩ := hsame a (hm.noted (.refl m) (hf b _ _ _ hk₁)) _ _ hn
  refine ⟨k₂, by rw [bind_run, hk₁]; exact hk₂, ?_⟩
  exact hm.noted ((hf a _ _ _ hn).trans (hf b _ _ _ hn')) ((hf b _ _ _ hk₁).trans (hf a _ _ _ hk₂))

end Build

/-! ### Passes -/

namespace Pass

open Build

variable {R : Model → Model → Prop} {name : String} {header : α → Header} {step : α → Build Unit}

/-- A step of a pass, which tells a failure with a position. -/
def anchored (header : α → Header) (step : α → Build Unit) (a : α) : Build Unit := fun m =>
  (step a m).mapError fun f => f.anchor (header a).path (header a).span

theorem anchored_ok {a : α} {m m' : Model} :
    anchored header step a m = .ok ((), m') ↔ step a m = .ok ((), m') := by
  rw [anchored]
  rcases step a m with e | ⟨⟨⟩, n⟩ <;> simp [Except.mapError]

theorem simulates_anchored {a : α} (h : Simulates R (step a) (step a)) :
    Simulates R (anchored header step a) (anchored header step a) := by
  rintro m k hm ⟨⟩ n hn
  obtain ⟨n', hn', hlike⟩ := h hm _ _ (anchored_ok.1 hn)
  exact ⟨n', anchored_ok.2 hn', hlike⟩

theorem simulates_each (h : ∀ a ∈ as, Simulates R (step a) (step a)) :
    Simulates R (each name as header step).run (each name as header step).run :=
  simulates_forM fun a ha => simulates_anchored (h a ha)

/-- A pass takes its declarations in another order if its steps can be taken so. -/
theorem simulates_each_perm (hrefl : ∀ m, R m m)
    (htrans : ∀ {m n k}, R m n → R n k → R m k) (hperm : as.Perm bs) (hnodup : as.Nodup)
    (hstep : ∀ a ∈ as, Simulates R (step a) (step a)) (hswap : ∀ a ∈ as, ∀ b ∈ as, a ≠ b →
      Simulates R (step a >>= fun _ => step b) (step b >>= fun _ => step a)) :
    Simulates R (each name as header step).run (each name bs header step).run := by
  refine simulates_forM_perm hrefl htrans hperm hnodup (fun a ha => simulates_anchored (hstep a ha))
    fun a ha b hb hne m k hm => ?_
  rw [ensures_bind]
  rintro ⟨⟩ n hn ⟨⟩ n' hn'
  obtain ⟨k', hk', hlike⟩ := hswap a ha b hb hne hm () n' (by
    rw [bind_run, anchored_ok.1 hn]
    exact anchored_ok.1 hn')
  rw [bind_run] at hk'
  rcases hk : step b k with _ | ⟨⟨⟩, k₁⟩ <;> rw [hk] at hk'
  · cases hk'
  · refine ⟨k', ?_, hlike⟩
    change (anchored header step b >>= fun _ => anchored header step a) k = .ok ((), k')
    rw [bind_run, anchored_ok.2 hk]
    exact anchored_ok.2 hk'

end Pass
end ModelGraph
