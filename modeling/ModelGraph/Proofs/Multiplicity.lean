/-
# The order of multiplicities

A multiplicity is a lower bound and a ceiling, an integer or above all of them. One subsumes
another if its lower bound is lower and its ceiling higher, which is a partial order, with `join` for
the least that subsumes two. Whatever the other admits it then admits too, and where the other admits
its own lower bound, this is the only way to do so. Elements of a collection that are each mapped to
some results come to a number of results that the multiplicity of the map admits. In a concatenation
the bounds are added as words: its multiplicity admits all counts of its parts as long as the sum
of the upper bounds is one.

Key definitions: `Multiplicity.Admits`, `Multiplicity.ceiling`, `Multiplicity.Chain`.
Key theorems: `Multiplicity.subsumes_iff`, `Multiplicity.subsumes_join`, `Native.mappedResult_admits`,
`Multiplicity.Chain.admits_total`.
-/
import Mathlib
import ModelGraph.Expression.Candidate

namespace ModelGraph

variable {a b c : Multiplicity} {n : Nat}

namespace Multiplicity

/-- So many values are allowed. -/
def Admits (m : Multiplicity) (n : Nat) : Prop := m.lower ≤ n ∧ within n m.upper = true

instance : Decidable (a.Admits n) := inferInstanceAs (Decidable (_ ∧ _))

/-- The upper bound, or what is above all bounds. -/
def ceiling (m : Multiplicity) : WithTop Int := m.upper

theorem admits_iff : a.Admits n ↔ a.lower ≤ n ∧ ((n : Int) : WithTop Int) ≤ a.ceiling := by
  obtain ⟨lower, _ | upper⟩ := a
  · exact and_congr_right fun _ => iff_of_true rfl le_top
  · exact and_congr_right fun _ => decide_eq_true_iff.trans WithTop.coe_le_coe.symm

theorem ceiling_make (l u : Int) : (make l u).ceiling = if u = -1 then ⊤ else (u : WithTop Int) := by
  unfold ceiling make
  split <;> rfl

theorem subsumes_iff : a.subsumes b = true ↔ a.lower ≤ b.lower ∧ b.ceiling ≤ a.ceiling := by
  obtain ⟨l, _ | u⟩ := a <;> obtain ⟨l', _ | u'⟩ := b <;>
    simp only [subsumes, Bool.and_eq_true, decide_eq_true_eq, and_congr_right_iff] <;> intro _
  · exact iff_of_true trivial le_top
  · exact iff_of_true trivial le_top
  · exact iff_of_false Bool.false_ne_true (WithTop.not_top_le_coe u)
  · exact WithTop.coe_le_coe.symm

/-! ### A partial order -/

theorem subsumes_refl (a : Multiplicity) : a.subsumes a = true := subsumes_iff.2 ⟨le_rfl, le_rfl⟩

theorem subsumes_trans (hab : a.subsumes b = true) (hbc : b.subsumes c = true) : a.subsumes c = true := by
  rw [subsumes_iff] at hab hbc ⊢
  exact ⟨hab.1.trans hbc.1, hbc.2.trans hab.2⟩

theorem subsumes_antisymm (hab : a.subsumes b = true) (hba : b.subsumes a = true) : a = b := by
  rw [subsumes_iff] at hab hba
  have hlower : a.lower = b.lower := le_antisymm hab.1 hba.1
  have hupper : a.upper = b.upper := le_antisymm (α := WithTop Int) hba.2 hab.2
  cases a
  cases b
  cases hlower
  cases hupper
  rfl

theorem make_inj {l u l' u' : Int} (h : make l u = make l' u') : l = l' ∧ u = u' := by
  simp only [make, mk.injEq] at h
  refine ⟨h.1, ?_⟩
  have hupper := h.2
  split at hupper <;> split at hupper <;> simp_all

theorem ceiling_join {l u l' u' : Int} :
    ((make l u).join (make l' u')).ceiling = max (make l u).ceiling (make l' u').ceiling := by
  unfold join
  simp only [ceiling_make]
  by_cases hu : u = -1
  · simp [make, bothUpper, hu]
  by_cases hu' : u' = -1
  · simp [make, bothUpper, hu']
  · have hmax : max u u' ≠ -1 := by omega
    simp [make, bothUpper, hu, hu', hmax]

/-- **`join` is the least that subsumes two.** -/
theorem subsumes_join {l u l' u' : Int} : c.subsumes ((make l u).join (make l' u')) = true ↔
    c.subsumes (make l u) = true ∧ c.subsumes (make l' u') = true := by
  have hlower : ((make l u).join (make l' u')).lower = min (make l u).lower (make l' u').lower := rfl
  simp only [subsumes_iff, ceiling_join, hlower, le_min_iff, max_le_iff]
  exact and_and_and_comm

/-! ### Counts -/

theorem Admits.subsumed (hb : b.Admits n) (h : a.subsumes b = true) : a.Admits n := by
  rw [admits_iff] at hb ⊢
  rw [subsumes_iff] at h
  exact ⟨h.1.trans hb.1, hb.2.trans h.2⟩

/-- What a multiplicity admits has no end but its ceiling. -/
theorem ceiling_le (hn : b.Admits n) (h : ∀ k, b.Admits k → a.Admits k) : b.ceiling ≤ a.ceiling := by
  have hlower := hn.1
  cases hceiling : a.ceiling with
  | top => exact le_top
  | coe u =>
    have hbelow (k : Nat) (hk : b.Admits k) : (k : Int) ≤ u :=
      WithTop.coe_le_coe.1 (hceiling ▸ (admits_iff.1 (h k hk)).2)
    have hu := hbelow n hn
    by_contra hlt
    -- One more than the bound `u`, which is not below `n`, is admitted by `b` alone.
    have hmore : ((u + 1 : Int) : WithTop Int) ≤ b.ceiling := by
      cases hb : b.ceiling with
      | top => exact le_top
      | coe v =>
        rw [hb, WithTop.coe_le_coe] at hlt
        exact WithTop.coe_le_coe.2 (by omega)
    obtain ⟨k, hk⟩ := Int.eq_ofNat_of_zero_le (show 0 ≤ u + 1 by omega)
    have hadmits : b.Admits k := admits_iff.2 ⟨by omega, hk ▸ hmore⟩
    have := hbelow k hadmits
    omega

theorem subsumes_of_admits (hn : b.lower = n) (hb : b.Admits n) (h : ∀ k, b.Admits k → a.Admits k) :
    a.subsumes b = true := subsumes_iff.2 ⟨hn ▸ (h n hb).1, ceiling_le hb h⟩

end Multiplicity

open Multiplicity

/-- **The results of a map are as many as it says.** There is one list of results for each element. -/
theorem Native.mappedResult_admits {source : Multiplicity} {result : Typed} {counts : List Nat}
    (hsource : source.Admits counts.length) (hcounts : ∀ k ∈ counts, result.2.Admits k) :
    (mappedResult source result).2.Admits counts.sum := by
  unfold mappedResult
  split
  · rename_i hone
    simp only [Bool.and_eq_true, isOne, decide_eq_true_eq] at hone
    rw [hone.1] at hsource
    rw [hone.2] at hcounts
    simp only [Admits, one, within, decide_eq_true_eq] at hsource hcounts ⊢
    obtain ⟨k, rfl⟩ := List.length_eq_one_iff.1 (show counts.length = 1 by omega)
    simpa using hcounts k
  · split
    · rename_i hone
      simp only [Bool.and_eq_true, decide_eq_true_eq] at hone
      have hlength := hsource.2
      rw [hone.1] at hlength
      rcases counts with _ | ⟨k, _ | ⟨k', counts⟩⟩
      · exact ⟨le_rfl, rfl⟩
      · have hk := (hcounts k (.head _)).2
        rw [hone.2] at hk
        exact ⟨Int.natCast_nonneg _, hk⟩
      · simp [within] at hlength
        omega
    · exact ⟨Int.natCast_nonneg _, rfl⟩

/-- **Multiplicities are ordered by what they admit.** -/
theorem Multiplicity.ordered_by_counts :
    (∀ a : Multiplicity, a.subsumes a = true) ∧
    (∀ a b c : Multiplicity, a.subsumes b = true → b.subsumes c = true → a.subsumes c = true) ∧
    (∀ l u l' u' : Int, (make l u).subsumes (make l' u') = true → (make l' u').subsumes (make l u) = true →
      l = l' ∧ u = u') ∧
    (∀ a b : Multiplicity, a.subsumes b = true → ∀ n, b.Admits n → a.Admits n) ∧
    (∀ (a b : Multiplicity) (n : Nat), b.lower = n → b.Admits n → (∀ k, b.Admits k → a.Admits k) →
      a.subsumes b = true) ∧
    (∀ (l u l' u' : Int) (c : Multiplicity), c.subsumes ((make l u).join (make l' u')) = true ↔
      c.subsumes (make l u) = true ∧ c.subsumes (make l' u') = true) ∧
    ∀ (source : Multiplicity) (result : Typed) (counts : List Nat), source.Admits counts.length →
      (∀ k ∈ counts, result.2.Admits k) → (Native.mappedResult source result).2.Admits counts.sum := by
  refine ⟨subsumes_refl, fun a b c => subsumes_trans, fun l u l' u' h h' => ?_, fun a b h n hn => hn.subsumed h,
    fun a b n => subsumes_of_admits, fun l u l' u' c => subsumes_join, fun source result counts => ?_⟩
  · exact make_inj (subsumes_antisymm h h')
  · exact Native.mappedResult_admits

namespace Multiplicity

/-! ### Concatenations -/

theorem wrap_add (i j : Int) : wrap (wrap i + wrap j) = wrap (i + j) := by simp [wrap]

theorem wrap_eq (i : Int) : wrap i =
    if i % 0x10000000000000000 < 2 ^ 63 then i % 0x10000000000000000
    else i % 0x10000000000000000 - 0x10000000000000000 := by
  rw [wrap, Int.bmod_def]
  rfl

theorem wrap_of_lt {i : Int} (h0 : 0 ≤ i) (h : i < 2 ^ 63) : wrap i = i := by
  rw [wrap_eq]
  omega

theorem wrap_le {i : Int} (h0 : 0 ≤ i) : wrap i ≤ i := by
  rw [wrap_eq]
  omega

theorem wrap_lt (i : Int) : wrap i < 2 ^ 63 := by
  rw [wrap_eq]
  omega

/-- The bounds are words that are not negative. -/
def Declared (m : Multiplicity) : Prop :=
  0 ≤ m.lower ∧ m.lower < 2 ^ 63 ∧ ∀ u : Int, m.ceiling = u → m.lower ≤ u ∧ u < 2 ^ 63

theorem ceiling_sum_top (h : a.ceiling = ⊤ ∨ b.ceiling = ⊤) : (a.sum b).ceiling = ⊤ := by
  have hboth : bothUpper (fun x y => wrap (x + y)) a.upper b.upper = -1 := by
    rcases h with h | h
    · rw [show a.upper = none from h]
      rfl
    · rw [show b.upper = none from h]
      cases a.upper <;> rfl
  rw [sum, ceiling_make, if_pos hboth]

theorem ceiling_sum {u v : Int} (ha : a.ceiling = u) (hb : b.ceiling = v) :
    (a.sum b).ceiling = if wrap (u + v) = -1 then ⊤ else (wrap (u + v) : WithTop Int) := by
  rw [sum, ceiling_make, show a.upper = some u from ha, show b.upper = some v from hb]
  rfl

/-- Multiplicities that are concatenated. -/
inductive Chain where
  | one (m : Multiplicity)
  | cat (x y : Chain)

namespace Chain

def Declared : Chain → Prop
  | one m => m.Declared
  | cat x y => x.Declared ∧ y.Declared

def total : Chain → Multiplicity
  | one m => m
  | cat x y => x.total.sum y.total

def Counts : Chain → Nat → Prop
  | one m, n => m.Admits n
  | cat x y, n => ∃ i j, x.Counts i ∧ y.Counts j ∧ i + j = n

/-- The sum of the lower bounds. -/
def floor : Chain → Int
  | one m => m.lower
  | cat x y => x.floor + y.floor

/-- The sum of the upper bounds. -/
def roof : Chain → WithTop Int
  | one m => m.ceiling
  | cat x y => x.roof + y.roof

variable {x : Chain}

theorem floor_nonneg (hx : x.Declared) : 0 ≤ x.floor := by
  induction x with
  | one m => exact hx.1
  | cat x y ihx ihy => exact Int.add_nonneg (ihx hx.1) (ihy hx.2)

theorem lower_total (hx : x.Declared) : x.total.lower = wrap x.floor := by
  induction x with
  | one m => exact (wrap_of_lt hx.1 hx.2.1).symm
  | cat x y ihx ihy =>
    show wrap (x.total.lower + y.total.lower) = wrap (x.floor + y.floor)
    rw [ihx hx.1, ihy hx.2, wrap_add]

theorem ceiling_total (hx : x.Declared) : x.total.ceiling = ⊤ ∨
    ∃ r : Int, 0 ≤ r ∧ x.roof = r ∧ x.total.ceiling = wrap r := by
  induction x with
  | one m =>
    rcases hm : m.ceiling with _ | u
    · exact .inl hm
    · obtain ⟨hlower, hu⟩ := hx.2.2 u hm
      have h0 : 0 ≤ u := hx.1.trans hlower
      exact .inr ⟨u, h0, hm, by rw [wrap_of_lt h0 hu]; exact hm⟩
  | cat x y ihx ihy =>
    show (x.total.sum y.total).ceiling = ⊤ ∨ ∃ r : Int, 0 ≤ r ∧ x.roof + y.roof = r ∧ (x.total.sum y.total).ceiling = wrap r
    rcases ihx hx.1 with hr | ⟨r, hr0, hr, hxr⟩
    · exact .inl (ceiling_sum_top (.inl hr))
    rcases ihy hx.2 with hs | ⟨s, hs0, hs, hys⟩
    · exact .inl (ceiling_sum_top (.inr hs))
    rw [ceiling_sum hxr hys, wrap_add, hr, hs]
    by_cases hend : wrap (r + s) = -1
    · exact .inl (if_pos hend)
    · exact .inr ⟨r + s, Int.add_nonneg hr0 hs0, rfl, if_neg hend⟩

theorem Counts.within (h : x.Counts n) : x.floor ≤ n ∧ ((n : Int) : WithTop Int) ≤ x.roof := by
  induction x generalizing n with
  | one m => exact admits_iff.1 h
  | cat x y ihx ihy =>
    obtain ⟨i, j, hi, hj, rfl⟩ := h
    rw [Int.natCast_add, WithTop.coe_add]
    exact ⟨Int.add_le_add (ihx hi).1 (ihy hj).1, add_le_add (ihx hi).2 (ihy hj).2⟩

theorem counts_roof (hx : x.Declared) {r : Int} (hr : x.roof = r) : ∃ n : Nat, n = r ∧ x.Counts n := by
  induction x generalizing r with
  | one m =>
    obtain ⟨hlower, -⟩ := hx.2.2 r hr
    obtain ⟨n, rfl⟩ := Int.eq_ofNat_of_zero_le (hx.1.trans hlower)
    exact ⟨n, rfl, admits_iff.2 ⟨hlower, ge_of_eq hr⟩⟩
  | cat x y ihx ihy =>
    obtain ⟨i, j, hi, hj, rfl⟩ := WithTop.add_eq_coe.1 hr
    obtain ⟨n, rfl, hn⟩ := ihx hx.1 hi.symm
    obtain ⟨k, rfl, hk⟩ := ihy hx.2 hj.symm
    exact ⟨n + k, rfl, n, k, hn, hk, rfl⟩

theorem admits_total (hx : x.Declared) : (∀ n, x.Counts n → x.total.Admits n) ↔
    x.total.ceiling = ⊤ ∨ x.roof < ((2 ^ 63 : Int) : WithTop Int) := by
  have hadmits (n : Nat) (hn : x.Counts n) : x.total.Admits n ↔ ((n : Int) : WithTop Int) ≤ x.total.ceiling := by
    have hlower : x.total.lower ≤ n := by
      rw [lower_total hx]
      exact (wrap_le (floor_nonneg hx)).trans hn.within.1
    rw [admits_iff, and_iff_right hlower]
  rcases ceiling_total hx with htop | ⟨r, hr0, hr, hceiling⟩
  · exact iff_of_true (fun n hn => (hadmits n hn).2 (htop ▸ le_top)) (.inl htop)
  rw [hr, hceiling, WithTop.coe_lt_coe]
  constructor
  · intro h
    obtain ⟨n, rfl, hn⟩ := counts_roof hx hr
    have hle := (hadmits n hn).1 (h n hn)
    rw [hceiling, WithTop.coe_le_coe] at hle
    exact .inr (hle.trans_lt (wrap_lt n))
  · rintro (h | h) n hn
    · cases h
    · rw [hadmits n hn, hceiling, wrap_of_lt hr0 h, ← hr]
      exact hn.within.2

end Chain

theorem admits_sum (ha : a.Declared) (hb : b.Declared) :
    (∀ n k, a.Admits n → b.Admits k → (a.sum b).Admits (n + k)) ↔
      ∀ u v : Int, a.ceiling = u → b.ceiling = v → u + v < 2 ^ 63 := by
  have hcounts : (∀ n k, a.Admits n → b.Admits k → (a.sum b).Admits (n + k)) ↔
      ∀ n, (Chain.cat (.one a) (.one b)).Counts n → (a.sum b).Admits n := by
    constructor
    · rintro h _ ⟨n, k, hn, hk, rfl⟩
      exact h n k hn hk
    · exact fun h n k hn hk => h _ ⟨n, k, hn, hk, rfl⟩
  have htotal := Chain.admits_total (x := .cat (.one a) (.one b)) ⟨ha, hb⟩
  refine hcounts.trans (htotal.trans ?_)
  cases hu : a.ceiling with
  | top => exact iff_of_true (.inl (ceiling_sum_top (.inl hu))) fun _ _ h => nomatch h
  | coe u =>
    cases hv : b.ceiling with
    | top => exact iff_of_true (.inl (ceiling_sum_top (.inr hv))) fun _ _ _ h => nomatch h
    | coe v =>
      have hwrap : wrap (u + v) ≠ -1 := by
        have := ha.2.2 u hu
        have := hb.2.2 v hv
        have := ha.1
        have := hb.1
        rw [wrap_eq]
        omega
      have htop : (a.sum b).ceiling ≠ ⊤ := by
        rw [ceiling_sum hu hv, if_neg hwrap]
        exact WithTop.coe_ne_top
      have hroof : a.ceiling + b.ceiling = ((u + v : Int) : WithTop Int) := by
        rw [hu, hv, WithTop.coe_add]
      show (a.sum b).ceiling = ⊤ ∨ a.ceiling + b.ceiling < _ ↔ _
      rw [or_iff_right htop, hroof, WithTop.coe_lt_coe]
      constructor
      · rintro h _ _ ⟨⟩ ⟨⟩
        exact h
      · exact fun h => h u v rfl rfl

/-- **A concatenation loses counts exactly where its upper bound wraps around.** -/
theorem concatenation_counts (x : Chain) (hx : x.Declared) :
    ((∀ n, x.Counts n → x.total.Admits n) ↔
      x.total.ceiling = ⊤ ∨ x.roof < ((2 ^ 63 : Int) : WithTop Int)) ∧
    ∀ a b : Multiplicity, x = .cat (.one a) (.one b) →
      ((∀ n k, a.Admits n → b.Admits k → (a.sum b).Admits (n + k)) ↔
        ∀ u v : Int, a.ceiling = u → b.ceiling = v → u + v < 2 ^ 63) := by
  refine ⟨Chain.admits_total hx, ?_⟩
  rintro a b rfl
  exact admits_sum hx.1 hx.2

theorem ones_counted : (Chain.cat (.one one) (.one one)).Declared ∧
    ∀ n k, one.Admits n → one.Admits k → (one.sum one).Admits (n + k) := by
  have hone : one.Declared := by
    refine ⟨by decide, by decide, ?_⟩
    rintro u ⟨⟩
    decide
  have hones : (Chain.cat (.one one) (.one one)).Declared := ⟨hone, hone⟩
  refine ⟨hones, ((concatenation_counts _ hones).2 one one rfl).2 ?_⟩
  rintro u v ⟨⟩ ⟨⟩
  decide

/-- Two ranges of one count each, with a concatenation that admits none. -/
theorem concatenation_wraps : ∃ (a b : Multiplicity) (n k : Nat), a.Declared ∧ b.Declared ∧ a.Admits n ∧ b.Admits k ∧
    ¬ (a.sum b).Admits (n + k) := by
  have hdeclared : (make (2 ^ 62) (2 ^ 62)).Declared := by
    refine ⟨by decide, by decide, ?_⟩
    rintro u ⟨⟩
    decide
  exact ⟨make (2 ^ 62) (2 ^ 62), make (2 ^ 62) (2 ^ 62), 2 ^ 62, 2 ^ 62, hdeclared, hdeclared, by decide, by decide,
    by decide⟩

end Multiplicity
end ModelGraph
