/-
# Groups of nodes that reach each other

The search for groups numbers nodes as it enters them, and keeps those that are in no group yet
pending, the newest first. From each pending node but those that are still being searched a
pending node with a lower number is reached. When a node is left, either it leads to a node that
was pending before it; or no edge leads from it, or from what is pending since, to such a node.
Then these nodes reach each other and lead to groups that are complete, so they are a group.
The search also ends when its depth is not bounded, and comes to the same groups.

Key definitions: `Search.Linked`, `Search.Grouping.Sound`.
Key theorems: `Search.connect_connects`, `Search.components_sound`, `Search.components_partition`.
-/
import ModelGraph.Proofs.Search

namespace ModelGraph

open List Option Nat
namespace Search

open Relation

variable {α : Type} {next : α → List α} {univ nodes fresh : List α} {a b x y : α} {seen : α → α → Prop} {n : Nat}

/-- Two nodes reach each other. -/
def Linked (next : α → List α) (a b : α) : Prop :=
  ReflTransGen (Edge next) a b ∧ ReflTransGen (Edge next) b a

theorem Linked.trans (h : Linked next a b) (k : Linked next b x) : Linked next a x :=
  ⟨h.1.trans k.1, k.2.trans h.2⟩

theorem Linked.symm (h : Linked next a b) : Linked next b a := ⟨h.2, h.1⟩

namespace Grouping

variable [BEq α] {s t u : Grouping α} {low : Nat} {done : List α}

def entered (s : Grouping α) : List α := s.numbers.map (·.1)

def number (s : Grouping α) (a : α) : Nat := (s.numbers.lookup a).getD 0

/-- What holds of a search at any time. Each node that was entered is pending or in one group,
no edge leads out of the groups, and each group is all that is linked to one of its nodes. -/
structure Sound (next : α → List α) (s : Grouping α) : Prop where
  parts : (s.pending ++ s.groups.flatten).Perm s.entered
  nodup : s.entered.Nodup
  numbered : ∀ x ∈ s.entered, s.number x < s.numbers.length
  closed : ∀ x ∈ s.groups.flatten, ∀ y ∈ next x, y ∈ s.groups.flatten
  linked : ∀ g ∈ s.groups, ∃ r ∈ g, ∀ x, x ∈ g ↔ Linked next r x

/-- A search at a later time. Nodes keep their numbers, and new ones get higher numbers. -/
structure Later (s t : Grouping α) : Prop where
  subset : s.entered ⊆ t.entered
  length : s.numbers.length ≤ t.numbers.length
  kept : ∀ x ∈ s.entered, t.number x = s.number x
  fresh : ∀ x ∈ t.entered, x ∉ s.entered → s.numbers.length ≤ t.number x

theorem Sound.empty (next : α → List α) : Sound next {} :=
  ⟨.nil, .nil, forall_mem_nil _, forall_mem_nil _, forall_mem_nil _⟩

theorem Later.trans (h : Later s t) (k : Later t u) : Later s u where
  subset := List.Subset.trans h.subset k.subset
  length := Nat.le_trans h.length k.length
  kept x hx := (k.kept x (h.subset hx)).trans (h.kept x hx)
  fresh x hx hs := by
    by_cases ht : x ∈ t.entered
    · rw [k.kept x ht]
      exact h.fresh x ht hs
    · exact Nat.le_trans h.length (k.fresh x hx ht)

namespace Sound

variable (hs : s.Sound next)
include hs

theorem mem_entered : x ∈ s.entered ↔ x ∈ s.pending ∨ x ∈ s.groups.flatten := by
  rw [← hs.parts.mem_iff, mem_append]

theorem entered_of_pending (hx : x ∈ s.pending) : x ∈ s.entered := hs.mem_entered.2 (.inl hx)

theorem apart (hx : x ∈ s.pending) : x ∉ s.groups.flatten := by
  have hnodup := hs.parts.nodup_iff.2 hs.nodup
  exact fun hg => (nodup_append.1 hnodup).2.2 x hx x hg rfl

theorem reach_closed (h : ReflTransGen (Edge next) x y) (hx : x ∈ s.groups.flatten) :
    y ∈ s.groups.flatten := by
  induction h with
  | refl => exact hx
  | tail _ e ih => exact hs.closed _ ih _ e

end Sound

section Steps

variable [LawfulBEq α]

theorem lookup_isSome : (s.numbers.lookup x).isSome ↔ x ∈ s.entered := by
  rw [lookup_isSome_iff, entered, List.mem_map]
  exact exists_congr fun p => and_congr_right fun _ => by rw [beq_iff_eq, eq_comm]

theorem number_enter_self (s : Grouping α) (a : α) : (s.enter a).number a = s.numbers.length := by
  simp [number, enter]

theorem number_enter_of_ne (s : Grouping α) (h : x ≠ a) : (s.enter a).number x = s.number x := by
  have hne : (x == a) = false := by simp [h]
  simp [number, enter, lookup_cons, hne]

theorem Later.enter (ha : a ∉ s.entered) : s.Later (s.enter a) where
  subset := subset_cons_self _ _
  length := le_succ _
  kept x hx := number_enter_of_ne s fun h => ha (h ▸ hx)
  fresh x hx hs := by
    rcases mem_cons.1 hx with rfl | hx
    · exact Nat.le_of_eq (number_enter_self s _).symm
    · exact absurd hx hs

theorem Sound.enter (hs : s.Sound next) (ha : a ∉ s.entered) : (s.enter a).Sound next where
  parts := hs.parts.cons a
  nodup := nodup_cons.2 ⟨ha, hs.nodup⟩
  numbered x hx := by
    by_cases h : x = a
    · rw [h, number_enter_self]
      exact lt_succ_self _
    · rw [number_enter_of_ne s h]
      exact lt_succ_of_lt (hs.numbered x ((mem_cons.1 hx).resolve_left h))
  closed := hs.closed
  linked := hs.linked

theorem close_eq {older : List α} (hp : t.pending = fresh ++ a :: older) (ha : a ∉ fresh) :
    t.close a = { t with pending := older, groups := t.groups ++ [fresh ++ [a]] } := by
  have hall : ∀ x ∈ fresh, (x != a) = true := fun x hx => by
    simpa using fun h : x = a => ha (h ▸ hx)
  have hstop : (a != a) = false := by simp
  unfold close
  rw [hp, takeWhile_append_of_pos hall, dropWhile_append_of_pos hall, dropWhile_cons]
  simp

/-! ### The search from a node -/

/-- What has come of a search from `a` that began at `s` and stands at `t`. The nodes that it
left pending are `fresh`, of whose edges it has seen some. Where such an edge leads to a node
that was pending before, the number of that node is at least `low`; and `low` is the number of
such a node that is reached from `a`, or that of `a` itself. -/
structure Swept (next : α → List α) (seen : α → α → Prop) (s : Grouping α) (a : α) (fresh : List α)
    (t : Grouping α) (low : Nat) : Prop where
  sound : t.Sound next
  later : s.Later t
  pending : t.pending = fresh ++ s.pending
  new : ∀ x ∈ fresh, x ∉ s.entered
  reached : ∀ x ∈ t.entered, x ∈ s.entered ∨ ReflTransGen (Edge next) a x
  entered : ∀ x ∈ fresh, ∀ y, seen x y → y ∈ t.entered
  low_le_of_seen : ∀ x ∈ fresh, ∀ y, seen x y → y ∈ s.pending → low ≤ s.number y
  low_eq : low = s.numbers.length ∨ ∃ y ∈ s.pending, s.number y = low ∧ ReflTransGen (Edge next) a y

/-- The search has gone from `a` to some of its neighbours. What it left pending leads back to
`a`, or to what was pending before. -/
def Scanned (next : α → List α) (s : Grouping α) (a : α) (done : List α) (t : Grouping α) (low : Nat) : Prop :=
  ∃ fresh, Swept next (fun x y => y ∈ next x ∧ (x = a → y ∈ done)) s a (fresh ++ [a]) t low ∧
    ∀ x ∈ fresh, ReflTransGen (Edge next) x a ∨ ∃ y ∈ s.pending, ReflTransGen (Edge next) x y

/-- The search from `a` is over. What it left pending leads to what was pending before. -/
def Searched (next : α → List α) (s : Grouping α) (a : α) (t : Grouping α) (low : Nat) : Prop :=
  ∃ fresh, Swept next (Edge next) s a fresh t low ∧ a ∈ t.entered ∧
    ∀ x ∈ fresh, ∃ y ∈ s.pending, ReflTransGen (Edge next) x y

omit [LawfulBEq α] in
theorem Swept.low_le (h : Swept next seen s a fresh t low) (hs : s.Sound next) : low ≤ s.numbers.length := by
  rcases h.low_eq with h | ⟨y, hy, rfl, -⟩
  · exact Nat.le_of_eq h
  · exact Nat.le_of_lt (hs.numbered y (hs.entered_of_pending hy))

omit [LawfulBEq α] in
theorem Swept.number_cases (h : Swept next seen s a fresh t low) (hs : s.Sound next) (hy : y ∈ t.pending) :
    y ∈ s.pending ∧ t.number y = s.number y ∨ s.numbers.length ≤ t.number y := by
  have hyt := h.sound.entered_of_pending hy
  rw [h.pending, mem_append] at hy
  rcases hy with hy | hy
  · exact .inr (h.later.fresh y hyt (h.new y hy))
  · exact .inl ⟨hy, h.later.kept y (hs.entered_of_pending hy)⟩

theorem Scanned.start (hs : s.Sound next) (ha : a ∉ s.entered) :
    Scanned next s a [] (s.enter a) s.numbers.length := by
  refine ⟨[], ⟨hs.enter ha, .enter ha, rfl, ?_, ?_, ?_, ?_, .inl rfl⟩, forall_mem_nil _⟩
  · intro x hx
    rwa [mem_singleton.1 hx]
  · intro x hx
    rcases mem_cons.1 hx with rfl | hx
    · exact .inr .refl
    · exact .inl hx
  · exact fun x hx y hy => absurd (hy.2 (mem_singleton.1 hx)) not_mem_nil
  · exact fun x hx y hy => absurd (hy.2 (mem_singleton.1 hx)) not_mem_nil

theorem Scanned.old (h : Scanned next s a done t low) (hs : s.Sound next) (hb : b ∈ next a)
    (hbt : b ∈ t.entered) :
    Scanned next s a (b :: done) t (if t.pending.contains b then min low (t.number b) else low) := by
  obtain ⟨fresh, h, hback⟩ := h
  have hle : (if t.pending.contains b then min low (t.number b) else low) ≤ low := by
    split <;> omega
  have hlow := h.low_le hs
  refine ⟨fresh, ⟨h.sound, h.later, h.pending, h.new, h.reached, ?_, ?_, ?_⟩, hback⟩
  · intro x hx y hy
    by_cases e : y = b
    · exact e ▸ hbt
    · exact h.entered x hx y ⟨hy.1, fun hxa => (mem_cons.1 (hy.2 hxa)).resolve_left e⟩
  · intro x hx y hy hys
    by_cases e : y = b
    · subst e
      have hyt : y ∈ t.pending := by
        rw [h.pending]
        exact mem_append_right _ hys
      have hkept := h.later.kept y (hs.entered_of_pending hys)
      rw [if_pos (contains_iff_mem.2 hyt)]
      omega
    · exact Nat.le_trans hle
        (h.low_le_of_seen x hx y ⟨hy.1, fun hxa => (mem_cons.1 (hy.2 hxa)).resolve_left e⟩ hys)
  · split
    · rename_i hbp
      rcases h.number_cases hs (contains_iff_mem.1 hbp) with ⟨hbs, hnum⟩ | hnum
      · by_cases hmin : low ≤ t.number b
        · rw [Nat.min_eq_left hmin]
          exact h.low_eq
        · rw [Nat.min_eq_right (by omega)]
          exact .inr ⟨b, hbs, hnum.symm, .single hb⟩
      · rw [Nat.min_eq_left (by omega)]
        exact h.low_eq
    · exact h.low_eq

omit [LawfulBEq α] in
theorem Scanned.new {low' : Nat} (h : Scanned next s a done t low) (hs : s.Sound next) (hb : b ∈ next a)
    (hbt : b ∉ t.entered) (k : Searched next t b u low') : Scanned next s a (b :: done) u (min low low') := by
  obtain ⟨fresh, h, hback⟩ := h
  obtain ⟨fresh', k, hbu, kback⟩ := k
  have hlow := h.low_le hs
  -- What was pending before the search from `a` was pending before the search from `b`.
  have hold : ∀ y ∈ s.pending, y ∈ t.pending ∧ t.number y = s.number y ∧ y ≠ b := by
    intro y hy
    have hys := hs.entered_of_pending hy
    refine ⟨?_, h.later.kept y hys, fun e => hbt (e ▸ h.later.subset hys)⟩
    rw [h.pending]
    exact mem_append_right _ hy
  refine ⟨fresh' ++ fresh, ⟨k.sound, h.later.trans k.later, ?_, ?_, ?_, ?_, ?_, ?_⟩, ?_⟩
  · rw [k.pending, h.pending]
    simp only [append_assoc]
  · intro x hx
    rw [append_assoc, mem_append] at hx
    rcases hx with hx | hx
    · exact fun hxs => k.new x hx (h.later.subset hxs)
    · exact h.new x hx
  · intro x hx
    rcases k.reached x hx with hx | hx
    · exact h.reached x hx
    · exact .inr (.head hb hx)
  · intro x hx y hy
    rw [append_assoc, mem_append] at hx
    rcases hx with hx | hx
    · exact k.entered x hx y hy.1
    · by_cases e : y = b
      · exact e ▸ hbu
      · exact k.later.subset
          (h.entered x hx y ⟨hy.1, fun hxa => (mem_cons.1 (hy.2 hxa)).resolve_left e⟩)
  · intro x hx y hy hys
    obtain ⟨hyt, hnum, hne⟩ := hold y hys
    rw [append_assoc, mem_append] at hx
    rcases hx with hx | hx
    · have := k.low_le_of_seen x hx y hy.1 hyt
      omega
    · have := h.low_le_of_seen x hx y
        ⟨hy.1, fun hxa => (mem_cons.1 (hy.2 hxa)).resolve_left hne⟩ hys
      omega
  · by_cases hmin : low ≤ low'
    · rw [Nat.min_eq_left hmin]
      exact h.low_eq
    · rw [Nat.min_eq_right (by omega)]
      have hlen := h.later.length
      rcases k.low_eq with hl | ⟨y, hy, rfl, hreach⟩
      · omega
      · rcases h.number_cases hs hy with ⟨hys, hnum⟩ | hnum
        · exact .inr ⟨y, hys, hnum.symm, .head hb hreach⟩
        · omega
  · intro x hx
    rcases mem_append.1 hx with hx | hx
    · obtain ⟨y, hy, hxy⟩ := kback x hx
      rw [h.pending, append_assoc, mem_append] at hy
      rcases hy with hy | hy
      · rcases hback y hy with hya | ⟨z, hz, hyz⟩
        · exact .inl (hxy.trans hya)
        · exact .inr ⟨z, hz, hxy.trans hyz⟩
      · rcases mem_cons.1 hy with rfl | hy
        · exact .inl hxy
        · exact .inr ⟨y, hy, hxy⟩
    · exact hback x hx

/-- **A node that leads to nothing that was pending before it closes a group.** -/
theorem Swept.close (h : Swept next (Edge next) s a (fresh ++ [a]) t s.numbers.length) (hs : s.Sound next)
    (hback : ∀ x ∈ fresh, ReflTransGen (Edge next) x a ∨ ∃ y ∈ s.pending, ReflTransGen (Edge next) x y) :
    Searched next s a (t.close a) s.numbers.length := by
  have hpending : ∀ x ∈ fresh ++ [a], x ∈ t.pending := fun x hx => by
    rw [h.pending]
    exact mem_append_left _ hx
  have hnodup := (nodup_append.1 (h.sound.parts.nodup_iff.2 h.sound.nodup)).1
  rw [h.pending, nodup_append] at hnodup
  have hat := h.sound.entered_of_pending (hpending a (by simp))
  -- No edge leads back below `a`, so a walk stays in the group or ends in one that is complete.
  have hout : ∀ x ∈ fresh ++ [a], ∀ y, ReflTransGen (Edge next) x y →
      y ∈ fresh ++ [a] ∨ y ∈ t.groups.flatten := by
    intro x hx y hxy
    induction hxy with
    | refl => exact .inl hx
    | @tail y z _ e ih =>
      rcases ih with hy | hy
      · rcases h.sound.mem_entered.1 (h.entered y hy z e) with hz | hz
        · rw [h.pending, mem_append] at hz
          refine hz.imp_right fun hz => ?_
          have := h.low_le_of_seen y hy z e hz
          have := hs.numbered z (hs.entered_of_pending hz)
          omega
        · exact .inr hz
      · exact .inr (h.sound.closed y hy z e)
  have hlinked : ∀ x, x ∈ fresh ++ [a] ↔ Linked next a x := by
    intro x
    constructor
    · intro hx
      have hxt := h.sound.entered_of_pending (hpending x hx)
      refine ⟨(h.reached x hxt).resolve_left (h.new x hx), ?_⟩
      rcases mem_append.1 hx with hxf | hxa
      · rcases hback x hxf with hxa | ⟨y, hy, hxy⟩
        · exact hxa
        · have hyt : y ∈ t.pending := by
            rw [h.pending]
            exact mem_append_right _ hy
          rcases hout x hx y hxy with hyf | hyg
          · exact absurd rfl (hnodup.2.2 y hyf y hy)
          · exact absurd hyg (h.sound.apart hyt)
      · rw [mem_singleton.1 hxa]
    · rintro ⟨hax, hxa⟩
      rcases hout a (by simp) x hax with hx | hx
      · exact hx
      · exact absurd (h.sound.reach_closed hxa hx) (h.sound.apart (hpending a (by simp)))
  have hclose : t.close a = { t with pending := s.pending, groups := t.groups ++ [fresh ++ [a]] } := by
    refine close_eq (by rw [h.pending, append_assoc]; rfl) fun ha => ?_
    exact (nodup_append.1 hnodup.1).2.2 a ha a (by simp) rfl
  have hflatten : (t.groups ++ [fresh ++ [a]]).flatten = t.groups.flatten ++ (fresh ++ [a]) := by simp
  rw [hclose]
  refine ⟨[], ⟨⟨?_, h.sound.nodup, h.sound.numbered, ?_, ?_⟩, ⟨h.later.subset, h.later.length, h.later.kept,
    h.later.fresh⟩, rfl, forall_mem_nil _, h.reached, forall_mem_nil _, forall_mem_nil _,
    .inl rfl⟩, hat, forall_mem_nil _⟩
  · have hparts := h.sound.parts
    rw [h.pending] at hparts
    show (s.pending ++ (t.groups ++ [fresh ++ [a]]).flatten).Perm t.entered
    rw [hflatten]
    refine List.Perm.trans ?_ hparts
    rw [append_assoc (fresh ++ [a]), ← append_assoc s.pending]
    exact perm_append_comm
  · intro x hx y hy
    change x ∈ (t.groups ++ [fresh ++ [a]]).flatten at hx
    show y ∈ (t.groups ++ [fresh ++ [a]]).flatten
    rw [hflatten, mem_append] at hx ⊢
    rcases hx with hx | hx
    · exact .inl (h.sound.closed x hx y hy)
    · exact (hout x hx y (.single hy)).symm
  · intro g hg
    rcases mem_append.1 hg with hg | hg
    · exact h.sound.linked g hg
    · rw [mem_singleton.1 hg]
      exact ⟨a, by simp, hlinked⟩

omit [LawfulBEq α] in
/-- A node that leads to a node that was pending before it stays pending, with all that is
pending since. -/
theorem Swept.leave (h : Swept next (Edge next) s a (fresh ++ [a]) t low) (hlow : low ≠ s.numbers.length)
    (hback : ∀ x ∈ fresh, ReflTransGen (Edge next) x a ∨ ∃ y ∈ s.pending, ReflTransGen (Edge next) x y) :
    Searched next s a t low := by
  obtain ⟨z, hz, -, haz⟩ := h.low_eq.resolve_left hlow
  have hat : a ∈ t.pending := by
    rw [h.pending]
    simp
  refine ⟨fresh ++ [a], h, h.sound.entered_of_pending hat, fun x hx => ?_⟩
  rcases mem_append.1 hx with hx | hx
  · rcases hback x hx with hxa | hxy
    · exact ⟨z, hz, hxa.trans haz⟩
    · exact hxy
  · rw [mem_singleton.1 hx]
    exact ⟨z, hz, haz⟩

theorem Scanned.finish (h : Scanned next s a done t low) (hs : s.Sound next) (hdone : next a ⊆ done) :
    if low = s.numbers.length then Searched next s a (t.close a) low else Searched next s a t low := by
  obtain ⟨fresh, h, hback⟩ := h
  have hall : Swept next (Edge next) s a (fresh ++ [a]) t low :=
    { h with
      entered := fun x hx y hy => h.entered x hx y ⟨hy, fun hxa => hdone (hxa ▸ hy)⟩
      low_le_of_seen := fun x hx y hy => h.low_le_of_seen x hx y ⟨hy, fun hxa => hdone (hxa ▸ hy)⟩ }
  split
  · rename_i hlow
    subst hlow
    exact hall.close hs hback
  · rename_i hlow
    exact hall.leave hlow hback

section

variable (search : Grouping α → α → Grouping α × Nat) (low : Nat)

theorem meet_old (hb : b ∈ t.entered) :
    meet search (t, low) b = (t, if t.pending.contains b then min low (t.number b) else low) := by
  obtain ⟨i, hi⟩ := isSome_iff_exists.1 (lookup_isSome.2 hb)
  simp only [meet, hi, number]
  split <;> rfl

theorem meet_new (hb : b ∉ t.entered) :
    meet search (t, low) b = ((search t b).1, min low (search t b).2) := by
  have hnone : t.numbers.lookup b = none := by
    rw [← not_isSome_iff_eq_none, lookup_isSome]
    exact hb
  simp only [meet, hnone]

end

theorem Scanned.foldl (hs : s.Sound next) (hu : ∀ b ∈ next a, b ∈ univ)
    (hc : ∀ t b, t.Sound next → b ∈ univ → b ∉ t.entered → room univ t.entered ≤ n →
      Searched next t b (connect next n t b).1 (connect next n t b).2) :
    ∀ (bs done : List α) (t : Grouping α) (low : Nat), bs ⊆ next a → Scanned next s a done t low →
      room univ t.entered ≤ n →
      Scanned next s a (bs.reverse ++ done) (bs.foldl (meet (connect next n)) (t, low)).1
        (bs.foldl (meet (connect next n)) (t, low)).2
  | [], _, _, _, _, h, _ => h
  | b :: bs, done, t, low, hbs, h, hr => by
    have hb : b ∈ next a := hbs (.head _)
    have hbs' : bs ⊆ next a := subset_of_cons_subset hbs
    rw [foldl_cons, reverse_cons, append_assoc]
    have hsound : t.Sound next := by
      obtain ⟨_, h, -⟩ := h
      exact h.sound
    by_cases hbt : b ∈ t.entered
    · rw [meet_old _ _ hbt]
      exact foldl hs hu hc bs (b :: done) t _ hbs' (h.old hs hb hbt) hr
    · have hdeeper := hc t b hsound (hu b hb) hbt hr
      rw [meet_new _ _ hbt]
      refine foldl hs hu hc bs (b :: done) _ _ hbs' (h.new hs hb hbt hdeeper) ?_
      obtain ⟨_, hswept, -⟩ := hdeeper
      exact Nat.le_trans (room_mono hswept.later.subset) hr

end Steps
end Grouping

/-! ### The whole search -/

open Grouping

variable [BEq α] [LawfulBEq α]

/-- **A search from a new node enters it and leaves it as it should.** -/
theorem connect_searched (hu : Closed next univ) : ∀ (n : Nat) (s : Grouping α) (a : α), s.Sound next →
    a ∈ univ → a ∉ s.entered → room univ s.entered ≤ n →
    Searched next s a (connect next n s a).1 (connect next n s a).2
  | 0, s, a, _, ha, hn, hr => absurd (mem_of_room_eq_zero (le_zero.1 hr) ha) hn
  | n + 1, s, a, hs, ha, hn, hr => by
    have hroom : room univ (s.enter a).entered ≤ n := by
      have := room_cons_lt ha hn
      have heq : (s.enter a).entered = a :: s.entered := rfl
      rw [heq]
      omega
    have hfinish := (Scanned.foldl hs (hu a ha) (connect_searched hu n) (next a) [] _ _
      (List.Subset.refl _) (.start hs hn) hroom).finish hs (by simp)
    unfold connect
    split at hfinish
    · rename_i hlow
      rw [if_pos hlow]
      rwa [hlow] at hfinish
    · rename_i hlow
      rwa [if_neg hlow]

/-! ### Termination -/

mutual

/-- The search from a new node, with no bound on its depth, ends and gives this. -/
inductive Connects (next : α → List α) : Grouping α → α → Grouping α × Nat → Prop
  | close {s t : Grouping α} {a : α} :
      Scans next (next a) (s.enter a, s.numbers.length) (t, s.numbers.length) →
      Connects next s a (t.close a, s.numbers.length)
  | leave {s t : Grouping α} {a : α} {low : Nat} :
      Scans next (next a) (s.enter a, s.numbers.length) (t, low) → low ≠ s.numbers.length →
      Connects next s a (t, low)

/-- The way along the neighbours of a node ends and gives this. -/
inductive Scans (next : α → List α) : List α → Grouping α × Nat → Grouping α × Nat → Prop
  | nil (found : Grouping α × Nat) : Scans next [] found found
  | old {t : Grouping α} {low : Nat} {b : α} {bs : List α} {found : Grouping α × Nat} : b ∈ t.entered →
      Scans next bs (t, if t.pending.contains b then min low (t.number b) else low) found →
      Scans next (b :: bs) (t, low) found
  | new {t : Grouping α} {low : Nat} {b : α} {bs : List α} {deeper found : Grouping α × Nat} : b ∉ t.entered →
      Connects next t b deeper → Scans next bs (deeper.1, min low deeper.2) found →
      Scans next (b :: bs) (t, low) found

end

/-- The search from some nodes, one after another, ends and gives this. -/
inductive Covers (next : α → List α) : List α → Grouping α → Grouping α → Prop
  | nil (s : Grouping α) : Covers next [] s s
  | old {s t : Grouping α} {a : α} {as : List α} : a ∈ s.entered → Covers next as s t → Covers next (a :: as) s t
  | new {s t : Grouping α} {a : α} {as : List α} {found : Grouping α × Nat} : a ∉ s.entered →
      Connects next s a found → Covers next as found.1 t → Covers next (a :: as) s t

theorem scans_foldl (hu : Closed next univ)
    (hc : ∀ t b, t.Sound next → b ∈ univ → b ∉ t.entered → room univ t.entered ≤ n →
      Connects next t b (connect next n t b)) :
    ∀ (bs : List α) (t : Grouping α) (low : Nat), bs ⊆ univ → t.Sound next → room univ t.entered ≤ n →
      Scans next bs (t, low) (bs.foldl (meet (connect next n)) (t, low))
  | [], _, _, _, _, _ => .nil _
  | b :: bs, t, low, hbs, ht, hr => by
    obtain ⟨hb, hbs⟩ := cons_subset.1 hbs
    rw [foldl_cons]
    by_cases hbt : b ∈ t.entered
    · rw [meet_old _ _ hbt]
      exact .old hbt (scans_foldl hu hc bs t _ hbs ht hr)
    · rw [meet_new _ _ hbt]
      obtain ⟨_, hswept, -⟩ := connect_searched hu n t b ht hb hbt hr
      exact .new hbt (hc t b ht hb hbt hr) (scans_foldl hu hc bs _ _ hbs hswept.sound
        (Nat.le_trans (room_mono hswept.later.subset) hr))

/-- **A bound of as many steps as there are new nodes is never met.** The search is then the one that has
none. -/
theorem connect_connects (hu : Closed next univ) : ∀ (n : Nat) (s : Grouping α) (a : α), s.Sound next →
    a ∈ univ → a ∉ s.entered → room univ s.entered ≤ n → Connects next s a (connect next n s a)
  | 0, s, a, _, ha, hn, hr => absurd (mem_of_room_eq_zero (le_zero.1 hr) ha) hn
  | n + 1, s, a, hs, ha, hn, hr => by
    have hroom : room univ (s.enter a).entered ≤ n :=
      Nat.le_of_lt_succ (Nat.lt_of_lt_of_le (room_cons_lt ha hn) hr)
    have hscan := scans_foldl hu (connect_connects hu n) (next a) (s.enter a) s.numbers.length (hu a ha)
      (hs.enter hn) hroom
    unfold connect
    dsimp only
    generalize (next a).foldl (meet (connect next n)) (s.enter a, s.numbers.length) = found at hscan ⊢
    obtain ⟨t, low⟩ := found
    by_cases hlow : low = s.numbers.length
    · rw [if_pos hlow]
      subst hlow
      exact .close hscan
    · rw [if_neg hlow]
      exact .leave hscan hlow

/-! ### All nodes -/

/-- What the search has come to between two nodes that it starts from: all that was entered is
in groups. -/
theorem foldl_connect (hu : Closed next nodes) {bound : Nat} (hb : nodes.length ≤ bound) :
    ∀ (as : List α) (s : Grouping α), as ⊆ nodes → s.Sound next → s.pending = [] → s.entered ⊆ nodes →
      ∃ t : Grouping α, as.foldl (fun s a => if (s.numbers.lookup a).isSome then s else (connect next bound s a).1) s = t ∧
        Covers next as s t ∧ t.Sound next ∧ t.pending = [] ∧ t.entered ⊆ nodes ∧ s.entered ⊆ t.entered ∧ as ⊆ t.entered
  | [], s, _, hs, hp, hsub => ⟨s, rfl, .nil s, hs, hp, hsub, List.Subset.refl _, nil_subset _⟩
  | a :: as, s, has, hs, hp, hsub => by
    have ha : a ∈ nodes := has (.head _)
    obtain ⟨t, ht, hcovers, hsound, hpending, hnodes, hst, hat⟩ : ∃ t : Grouping α,
        (if (s.numbers.lookup a).isSome then s else (connect next bound s a).1) = t ∧
          (∀ u, Covers next as t u → Covers next (a :: as) s u) ∧ t.Sound next ∧
          t.pending = [] ∧ t.entered ⊆ nodes ∧ s.entered ⊆ t.entered ∧ a ∈ t.entered := by
      by_cases h : a ∈ s.entered
      · exact ⟨s, if_pos (lookup_isSome.2 h), fun _ => .old h, hs, hp, hsub, List.Subset.refl _, h⟩
      · have hroom := Nat.le_trans (room_le_length nodes s.entered) hb
        obtain ⟨fresh, hswept, hentered, hback⟩ := connect_searched hu bound s a hs ha h hroom
        refine ⟨_, if_neg fun hl => h (lookup_isSome.1 hl),
          fun _ => .new h (connect_connects hu bound s a hs ha h hroom), hswept.sound, ?_, fun x hx => ?_,
          hswept.later.subset, hentered⟩
        · rw [hswept.pending, hp, append_nil, eq_nil_iff_forall_not_mem]
          intro x hx
          obtain ⟨y, hy, -⟩ := hback x hx
          rw [hp] at hy
          cases hy
        · rcases hswept.reached x hx with hx | hx
          · exact hsub hx
          · exact hu.reach hx ha
    obtain ⟨u, hfold, hcovered, husound, hupending, hunodes, htu, hasu⟩ :=
      foldl_connect hu hb as t (subset_of_cons_subset has) hsound hpending hnodes
    refine ⟨u, by rw [foldl_cons, ht, hfold], hcovers u hcovered, husound, hupending, hunodes,
      List.Subset.trans hst htu, cons_subset.2 ⟨htu hat, hasu⟩⟩

section

variable (hu : Closed next nodes) {bound : Nat} (hb : nodes.length ≤ bound)
include hu hb

theorem exists_covers : ∃ t : Grouping α, Covers next nodes {} t ∧ components next bound nodes = t.groups := by
  obtain ⟨t, ht, hcovers, -⟩ :=
    foldl_connect hu hb nodes {} (List.Subset.refl _) (.empty next) rfl (nil_subset _)
  exact ⟨t, hcovers, congrArg Grouping.groups ht⟩

/-- **The groups are a partition of the nodes by what reaches each other.** -/
theorem components_sound :
    (components next bound nodes).flatten.Nodup ∧
    (∀ x, x ∈ (components next bound nodes).flatten ↔ x ∈ nodes) ∧
    ∀ g ∈ components next bound nodes, ∃ r ∈ g, ∀ x, x ∈ g ↔ Linked next r x := by
  obtain ⟨t, ht, -, hsound, hpending, hsub, -, hall⟩ :=
    foldl_connect hu hb nodes {} (List.Subset.refl _) (.empty next) rfl (nil_subset _)
  have hgroups : components next bound nodes = t.groups := congrArg Grouping.groups ht
  have hparts := hsound.parts
  rw [hpending] at hparts
  rw [hgroups]
  exact ⟨hparts.nodup_iff.2 hsound.nodup,
    fun x => hparts.mem_iff.trans ⟨fun hx => hsub hx, fun hx => hall hx⟩, hsound.linked⟩

end

/-- **The search groups the nodes that reach each other, and ends.** Each node is in one group, once, no
group is empty, and two nodes share a group if and only if each is reached from the other. The search
without a bound on its depth ends with the same groups. -/
theorem components_partition (hu : Closed next nodes) {bound : Nat} (hb : nodes.length ≤ bound) :
    (∃ t : Grouping α, Covers next nodes {} t ∧ components next bound nodes = t.groups) ∧
    (components next bound nodes).flatten.Nodup ∧
    (∀ x, x ∈ (components next bound nodes).flatten ↔ x ∈ nodes) ∧ [] ∉ components next bound nodes ∧
    ∀ x ∈ nodes, ∀ y, (∃ g ∈ components next bound nodes, x ∈ g ∧ y ∈ g) ↔
      ReflTransGen (Edge next) x y ∧ ReflTransGen (Edge next) y x := by
  obtain ⟨hnodup, hmem, hlinked⟩ := components_sound hu hb
  refine ⟨exists_covers hu hb, hnodup, hmem, fun hnil => ?_, fun x hx y => ⟨?_, fun hxy => ?_⟩⟩
  · obtain ⟨r, hr, -⟩ := hlinked [] hnil
    cases hr
  · rintro ⟨g, hg, hxg, hyg⟩
    obtain ⟨r, -, hr⟩ := hlinked g hg
    exact ((hr x).1 hxg).symm.trans ((hr y).1 hyg)
  · obtain ⟨g, hg, hxg⟩ := mem_flatten.1 ((hmem x).2 hx)
    obtain ⟨r, -, hr⟩ := hlinked g hg
    exact ⟨g, hg, hxg, (hr y).2 (((hr x).1 hxg).trans hxy)⟩

/-- Two nodes in a loop, a node with a loop of its own behind them, and one that leads to them. -/
def loopedGraph (v : Nat) : List Nat := [[1, 1], [2, 0], [2], [0, 2]].getD v []

/-- The node behind the loop does not reach it, and is in a group of its own. -/
theorem components_loopedGraph : components loopedGraph 4 (List.range 4) = [[2], [1, 0], [3]] ∧
    ¬ (ReflTransGen (Edge loopedGraph) 1 2 ∧ ReflTransGen (Edge loopedGraph) 2 1) := by
  have hclosed : Closed loopedGraph (List.range 4) := by
    unfold Closed
    decide
  have hgroups : components loopedGraph 4 (List.range 4) = [[2], [1, 0], [3]] := by decide
  obtain ⟨-, -, -, -, hlinked⟩ := components_partition hclosed (show (List.range 4).length ≤ 4 by decide)
  refine ⟨hgroups, fun h => ?_⟩
  have hshared := (hlinked 1 (by decide) 2).2 h
  rw [hgroups] at hshared
  revert hshared
  decide

end Search
end ModelGraph
