/-
# Common supertypes

The common supertype of several types is looked for in the order of the first of them, `Nil`
aside. What is found is a supertype of all. It need not be the most specific one: where a class
extends several, a common supertype that stands later in the order may be a subtype of one that
stands earlier, and the measure of a unit stands in no order. Where the orders are linear and no
unit is among the types, nothing more specific is common to them, in whatever sequence they come.

Key definitions: `Model.Bounds`, `Model.Below`.
Key theorems: `Model.behind_of_below`, `Model.Tidy.linear_of_straight`,
`Document.commonSuper_first_in_order`.
-/
import ModelGraph.Proofs.Build.Indices

namespace ModelGraph

open Relation Search List RawType

/-- **A search without branches goes straight on**: what it adds is reached one from the other. -/
theorem Search.visit_straight {α : Type} [BEq α] [LawfulBEq α] (next : α → List α) :
    ∀ (n : Nat) (seen : List α) (a : α),
    (∀ s, ReflTransGen (Edge next) a s → (next s).length ≤ 1) →
    ∃ new, visit next n seen a = new ++ seen ∧ (∀ x ∈ new, ReflTransGen (Edge next) a x) ∧
      new.Pairwise fun x y => ReflTransGen (Edge next) y x
  | 0, seen, a, _ => ⟨[], rfl, by simp, .nil⟩
  | n + 1, seen, a, hone => by
    by_cases ha : a ∈ seen
    · exact ⟨[], visit_of_mem next _ ha, by simp, .nil⟩
    rw [visit_of_not_mem next n ha]
    rcases hnext : next a with _ | ⟨b, _ | ⟨b', bs⟩⟩
    · exact ⟨[a], rfl, by simp [ReflTransGen.refl], by simp⟩
    · have hab : Edge next a b := by simp [Edge, hnext]
      obtain ⟨new, hnew, hreach, hpairs⟩ := visit_straight next n (a :: seen) b fun s hs => hone s (.head hab hs)
      have hreach' : ∀ x ∈ new, ReflTransGen (Edge next) a x := fun x hx => .head hab (hreach x hx)
      refine ⟨new ++ [a], by simp [hnew], fun x hx => ?_, ?_⟩
      · rcases mem_append.1 hx with hx | hx
        · exact hreach' x hx
        · exact mem_singleton.1 hx ▸ .refl
      · refine pairwise_append.2 ⟨hpairs, pairwise_singleton _ _, fun x hx y hy => ?_⟩
        exact mem_singleton.1 hy ▸ hreach' x hx
    · have := hone a .refl
      simp [hnext] at this

namespace RawType

variable {a b : RawType}

theorem path_of_same (h : a.same b = true) : a.path = b.path := by
  cases a <;> cases b <;> simp_all [same, path]

theorem same_congr (h : a.same b = true) (t : RawType) : t.same a = t.same b := by
  cases a <;> cases b <;> cases t <;> simp_all [same]

theorem same_refl (t : RawType) : t.same t = true := by
  cases t <;> simp [same]

end RawType

namespace Model

variable {m : Model} {ts us : List RawType} {a b c t first : RawType}

def Bounds (m : Model) (ts : List RawType) (c : RawType) : Prop := ∀ t ∈ ts, m.isSubType t c = true

instance (m : Model) (ts : List RawType) (c : RawType) : Decidable (m.Bounds ts c) := by
  unfold Bounds
  infer_instance

def Below (m : Model) (a b : RawType) : Prop := m.isSubType a b = true ∧ m.isSubType b a = false

instance (m : Model) (a b : RawType) : Decidable (m.Below a b) := by
  unfold Below
  infer_instance

/-- Every type in the order of `t` is a subtype of those behind it. -/
def Linear (m : Model) (t : RawType) : Prop := (m.rawOrder t).Pairwise fun a b => m.isSubType a b = true

/-- The type in whose order a common supertype is looked for. -/
def leading? (ts : List RawType) : Option RawType := ts.find? fun t => !t.isNil

theorem isSubType_any (m : Model) (t : RawType) : m.isSubType t (.named Library.any) = true := by
  simp [isSubType, isAny, path]

theorem isSubType_of_isNil (h : a.isNil = true) (c : RawType) : m.isSubType a c = true := by
  simp [isSubType, h]

theorem isSubType_congr (h : a.same b = true) (t : RawType) : m.isSubType t a = m.isSubType t b := by
  simp only [isSubType, isAny, path_of_same h, same_congr h]

theorem Bounds.of_perm (h : m.Bounds ts c) (hp : us.Perm ts) : m.Bounds us c := fun t ht => h t (hp.subset ht)

theorem bounds_filter : m.Bounds (ts.filter fun t => !t.isNil) c ↔ m.Bounds ts c := by
  refine ⟨fun h t ht => ?_, fun h t ht => h t (mem_of_mem_filter ht)⟩
  by_cases hnil : t.isNil = true
  · exact isSubType_of_isNil hnil c
  · exact h t (mem_filter.2 ⟨ht, by simpa using hnil⟩)

theorem head_mem_rawOrder (m : Model) (t : RawType) : t ∈ m.rawOrder t := by
  cases t with
  | function => exact mem_singleton_self _
  | named t =>
    have ht : t ∈ preorder m.supers m.typeBound t := by
      rw [typeBound, ← cons_drop_preorder]
      exact .head _
    refine mem_map_of_mem ?_
    by_cases hany : (t == Library.any) = true
    · exact mem_append_right _ (mem_filter.2 ⟨ht, hany⟩)
    · exact mem_append_left _ (mem_filter.2 ⟨ht, by simpa [bne] using hany⟩)

/-- **Where the search for a common supertype ends**: at the first supertype of all in the order of
the leading type, or else at `Any`. -/
theorem commonSuper_cases (hfirst : leading? ts = some first) :
    (∃ before after, m.rawOrder first = before ++ m.commonSuper ts :: after ∧ m.Bounds ts (m.commonSuper ts) ∧
      ∀ a ∈ before, ¬ m.Bounds ts a) ∨
    m.commonSuper ts = .named Library.any ∧ ∀ a ∈ m.rawOrder first, ¬ m.Bounds ts a := by
  obtain ⟨rest, hrest⟩ : ∃ rest, (ts.filter fun t => !t.isNil) = first :: rest := by
    rw [leading?, ← head?_filter] at hfirst
    exact head?_eq_some_iff.1 hfirst
  have hall : ∀ a, ((first :: rest).all fun t => m.isSubType t a) = true ↔ m.Bounds ts a := by
    intro a
    rw [← hrest, all_eq_true]
    exact bounds_filter
  unfold commonSuper
  rw [hrest]
  dsimp only
  rcases hfound : (m.rawOrder first).find? fun c => (first :: rest).all fun t => m.isSubType t c with _ | r
  · refine .inr ⟨rfl, fun a ha hbounds => ?_⟩
    exact find?_eq_none.1 hfound a ha ((hall a).2 hbounds)
  · obtain ⟨hr, before, after, horder, hbefore⟩ := find?_eq_some_iff_append.1 hfound
    refine .inl ⟨before, after, horder, (hall r).1 hr, fun a ha hbounds => ?_⟩
    have := hbefore a ha
    rw [(hall a).2 hbounds] at this
    cases this

theorem commonSuper_of_nil (hts : ts ≠ []) (hfirst : leading? ts = none) : (m.commonSuper ts).isNil = true := by
  have hnil : (ts.filter fun t => !t.isNil) = [] := by
    rw [← head?_eq_none_iff, head?_filter]
    exact hfirst
  obtain ⟨t, rest, rfl⟩ := exists_cons_of_ne_nil hts
  have ht := find?_eq_none.1 hfirst t (.head _)
  unfold commonSuper
  rw [hnil]
  simpa using ht

theorem commonSuper_bounds (m : Model) (ts : List RawType) : m.Bounds ts (m.commonSuper ts) := by
  rcases hfirst : leading? ts with _ | first
  · intro t ht
    exact isSubType_of_isNil (by simpa using find?_eq_none.1 hfirst t ht) _
  · rcases m.commonSuper_cases hfirst with ⟨-, -, -, hbounds, -⟩ | ⟨heq, -⟩
    · exact hbounds
    · rw [heq]
      exact fun t _ => m.isSubType_any t

/-- **A common supertype that is more specific stands behind what is found**, or is the measure of
the leading type. -/
theorem behind_of_below (hts : ts ≠ []) (hc : m.Bounds ts c) (hbelow : m.Below c (m.commonSuper ts)) :
    ∃ first, leading? ts = some first ∧ (m.measureOf? first.path = some c.path ∨
      ∃ before after c', m.rawOrder first = before ++ m.commonSuper ts :: after ∧ c' ∈ after ∧ c'.same c = true) := by
  have hnot : ¬ m.isSubType (m.commonSuper ts) c = true := by simp [hbelow.2]
  rcases hfirst : leading? ts with _ | first
  · exact absurd (isSubType_of_isNil (commonSuper_of_nil hts hfirst) c) hnot
  refine ⟨first, rfl, ?_⟩
  have hmem : first ∈ ts := mem_of_find?_eq_some hfirst
  have hnil : first.isNil = false := by simpa using find?_some hfirst
  have hsub := hc first hmem
  -- If it is no measure, it stands in the order, since it is not above what was found.
  have hany : c.isAny = false := by
    by_contra hany
    exact hnot (by simp [isSubType, hany])
  simp only [isSubType, hany, hnil, Bool.or_false, Bool.or_eq_true, Bool.and_eq_true, decide_eq_true_eq,
    any_eq_true] at hsub
  have horder : m.measureOf? first.path = some c.path ∨ ∃ c' ∈ m.rawOrder first, c'.same c = true := by
    rcases hsub with (hsame | ⟨-, hmeasure⟩) | hmem
    · exact .inr ⟨first, m.head_mem_rawOrder first, hsame⟩
    · exact .inl hmeasure
    · exact .inr hmem
  refine horder.imp_right ?_
  rintro ⟨c', hc', hsame⟩
  have hbounds : m.Bounds ts c' := fun t ht => isSubType_congr hsame t ▸ hc t ht
  rcases m.commonSuper_cases hfirst with ⟨before, after, heq, -, hbefore⟩ | ⟨-, hnone⟩
  · refine ⟨before, after, c', heq, ?_, hsame⟩
    rw [heq] at hc'
    rcases mem_append.1 hc' with hc' | hc'
    · exact absurd hbounds (hbefore c' hc')
    · rcases mem_cons.1 hc' with rfl | hc'
      · exact absurd (by simp [isSubType, hsame]) hnot
      · exact hc'
  · exact absurd hbounds (hnone c' hc')

theorem not_below_of_linear (hts : ts ≠ []) (hlinear : ∀ t ∈ ts, m.measureOf? t.path = none ∧ m.Linear t)
    (hc : m.Bounds ts c) : ¬ m.Below c (m.commonSuper ts) := by
  intro hbelow
  obtain ⟨first, hfirst, hmeasure | ⟨before, after, c', horder, hc', hsame⟩⟩ := behind_of_below hts hc hbelow
  · rw [(hlinear first (mem_of_find?_eq_some hfirst)).1] at hmeasure
    cases hmeasure
  · have hpairs := (hlinear first (mem_of_find?_eq_some hfirst)).2
    unfold Linear at hpairs
    rw [horder, pairwise_append, pairwise_cons] at hpairs
    have hsub := hpairs.2.1.1 c' hc'
    rw [isSubType_congr hsame, hbelow.2] at hsub
    cases hsub

/-! ### One supertype each -/

/-- Each type above `t` extends at most one. -/
def Straight (m : Model) : RawType → Prop
  | .named t => ∀ s ∈ m.order t, (m.supers s).length ≤ 1
  | _ => True

instance (m : Model) (t : RawType) : Decidable (m.Straight t) := by
  cases t <;> unfold Straight <;> infer_instance

theorem Tidy.isSubType_of_reach (hm : m.Tidy) {s t : TypeRef} (h : ReflTransGen (Edge m.supers) t s) :
    m.isSubType (.named t) (.named s) = true := by
  have hs : named s ∈ m.rawOrder (.named t) := mem_map_of_mem (hm.mem_order.2 h)
  have hany : ((m.rawOrder (.named t)).any fun x => x.same (.named s)) = true :=
    any_eq_true.2 ⟨_, hs, same_refl _⟩
  simp [isSubType, hany]

/-- The order of a type is linear where each type above it extends at most one. -/
theorem Tidy.linear_of_straight (hm : m.Tidy) (t : RawType) (h : m.Straight t) : m.Linear t := by
  cases t with
  | function => exact pairwise_singleton _ _
  | named t =>
    obtain ⟨new, hnew, -, hpairs⟩ := visit_straight m.supers m.typeBound [] t fun s hs =>
      h s (hm.mem_order.2 hs)
    have hfound : (preorder m.supers m.typeBound t).Pairwise fun a b =>
        m.isSubType (.named a) (.named b) = true := by
      rw [preorder, hnew, append_nil, pairwise_reverse]
      exact hpairs.imp fun hr => hm.isSubType_of_reach hr
    refine pairwise_map.2 (pairwise_append.2 ⟨hfound.filter _, hfound.filter _, fun a _ b hb => ?_⟩)
    -- `Any` was moved behind all others.
    rw [eq_of_beq (mem_filter.1 hb).2]
    exact m.isSubType_any _

end Model

namespace Document

open Model

/-- **The common supertype is the first in the order of the leading type.** All types are subtypes of
it. A common supertype that is more specific stands behind it in that order, or is the measure of
the leading type. If the orders of the types are linear and none is a unit, then there is no such
supertype, and none is found for the types in another sequence. An order is linear if each type in
it extends at most one. -/
theorem commonSuper_first_in_order {d : Document} {o : Options} {m : Model} (h : (d.build o).result = .ok m)
    {ts : List RawType} (hts : ts ≠ []) :
    m.Bounds ts (m.commonSuper ts) ∧
    (∀ c, m.Bounds ts c → m.Below c (m.commonSuper ts) → ∃ first, leading? ts = some first ∧
      (m.measureOf? first.path = some c.path ∨
        ∃ before after c', m.rawOrder first = before ++ m.commonSuper ts :: after ∧ c' ∈ after ∧ c'.same c = true)) ∧
    ((∀ t ∈ ts, m.measureOf? t.path = none ∧ m.Linear t) →
      (∀ c, m.Bounds ts c → ¬ m.Below c (m.commonSuper ts)) ∧
      ∀ us, us.Perm ts → ¬ m.Below (m.commonSuper us) (m.commonSuper ts) ∧
        ¬ m.Below (m.commonSuper ts) (m.commonSuper us)) ∧
    ∀ t, m.Straight t → m.Linear t := by
  have htidy : m.Tidy := tidy_of_runs (append_nil _).symm ((runPasses_result _ _).1 h)
  refine ⟨m.commonSuper_bounds ts, fun c hc hbelow => behind_of_below hts hc hbelow, fun hlinear => ⟨fun c hc =>
    not_below_of_linear hts hlinear hc, fun us hp => ?_⟩, htidy.linear_of_straight⟩
  have hus : us ≠ [] := fun hnil => hts (perm_nil.1 (hnil ▸ hp.symm))
  refine ⟨not_below_of_linear hts hlinear ((m.commonSuper_bounds us).of_perm hp.symm), ?_⟩
  exact not_below_of_linear hus (fun t ht => hlinear t (hp.subset ht)) ((m.commonSuper_bounds ts).of_perm hp)

/-- Classes of which one extends two that extend a third. -/
def diamond : Document :=
  { classes := [extending "Z" [], extending "X" ["Z"], extending "Y" ["Z"], extending "A" ["X", "Y"],
      extending "B" ["Y"]] }
where
  extending (name : String) (supers : List String) : ClassDecl :=
    { header := { package := "m", name }, superTypes := supers.map fun s => { path := "m::" ++ s } }
  classOf (name : String) : RawType := .named { path := "m::" ++ name, kind := .classType, name }

/-- Nothing that two classes extend is more specific than what is found, for their orders are linear. -/
theorem diamond_linear : ∃ m, (diamond.build {}).result = .ok m ∧
    (m.commonSuper [diamond.classOf "X", diamond.classOf "B"]).path = "m::Z" ∧
    ∀ c, m.Bounds [diamond.classOf "X", diamond.classOf "B"] c →
      ¬ m.Below c (m.commonSuper [diamond.classOf "X", diamond.classOf "B"]) := by
  obtain ⟨m, hok, hfound, hall⟩ : ∃ m, (diamond.build {}).result = .ok m ∧
      (m.commonSuper [diamond.classOf "X", diamond.classOf "B"]).path = "m::Z" ∧
      ∀ t ∈ [diamond.classOf "X", diamond.classOf "B"], m.measureOf? t.path = none ∧ m.Straight t := by
    decide +kernel
  obtain ⟨-, -, hlinear, hstraight⟩ := commonSuper_first_in_order hok
    (cons_ne_nil (diamond.classOf "X") [diamond.classOf "B"])
  exact ⟨m, hok, hfound, (hlinear fun t ht => ⟨(hall t ht).1, hstraight t (hall t ht).2⟩).1⟩

/-- Two classes extend one that is more specific than what is found, and found for the classes in
the other sequence. -/
theorem diamond_skips : ∃ m, (diamond.build {}).result = .ok m ∧
    m.Bounds [diamond.classOf "A", diamond.classOf "B"] (diamond.classOf "Y") ∧
    m.Below (diamond.classOf "Y") (m.commonSuper [diamond.classOf "A", diamond.classOf "B"]) ∧
    (m.commonSuper [diamond.classOf "B", diamond.classOf "A"]).same (diamond.classOf "Y") = true := by
  decide +kernel

end Document
end ModelGraph
