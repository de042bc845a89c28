/-
# Dates and members of a navigation

A navigation to a dated class is given a date for each dimension: the given dates in their order, the
others as they are in force. These dates are in force after it, beside those of other dimensions. A
stored property that a class lists itself is what its name means, whatever the supertypes have; yet
a generated property of that name, in any of them, makes the navigation ask for dates first.

Key definitions: `Fills`.
Key theorems: `Model.Tidy.member_own`, `Navigation.select_own`, `Expression.own_property_applied`.
-/
import ModelGraph.Proofs.Build.Indices

namespace ModelGraph

open Model Search List Option

/-! ### Dates in force -/

/-- Dates for dimensions: the given ones in their order, and those in force in dimensions of the
source. -/
inductive Fills (source : Temporal) (context : Dates Expr) :
    List Temporal.Dimension → List Expr → List Expr → Prop
  | nil : Fills source context [] [] []
  | given {x d dimensions given dates} (rest : Fills source context dimensions given dates) :
    Fills source context (x :: dimensions) (d :: given) (d :: dates)
  | inForce {x d dimensions given dates} (hx : x ∈ source.dimensions) (hd : context.get x = some d)
    (rest : Fills source context dimensions given dates) :
    Fills source context (x :: dimensions) given (d :: dates)

variable {source target : Temporal} {context : Dates Expr} {given ds : List Expr}

theorem Fills.length {dimensions : List Temporal.Dimension} (h : Fills source context dimensions given ds) :
    ds.length = dimensions.length := by
  induction h with
  | nil => rfl
  | given _ ih => exact congrArg (· + 1) ih
  | inForce _ _ _ ih => exact congrArg (· + 1) ih

theorem fills_given : ∀ {dimensions : List Temporal.Dimension} {given : List Expr},
    given.length = dimensions.length → Fills source context dimensions given given
  | [], [], _ => .nil
  | _ :: _, _ :: _, h => .given (fills_given (by simpa using h))

theorem fills_of_fillDates (hlength : given.length ≤ target.dimensions.length)
    (h : fillDates source target given context = some ds) : Fills source context target.dimensions given ds := by
  unfold fillDates at h
  split at h <;> try simp only [map_eq_some_iff, reduceCtorEq, Option.some.injEq] at h
  -- What is taken from the dates in force is that of a dimension of the source.
  · obtain ⟨p, hp, rfl⟩ := h
    exact .inForce (by simp [Temporal.dimensions]) hp (.given .nil)
  · obtain ⟨p, hp, rfl⟩ := h
    exact .inForce (by simp [Temporal.dimensions]) hp (.given .nil)
  · obtain ⟨b, hb, rfl⟩ := h
    exact .given (.inForce (by simp [Temporal.dimensions]) hb .nil)
  · split at h
    · rename_i p b hp hb
      cases h
      exact .inForce (by simp [Temporal.dimensions]) hp (.inForce (by simp [Temporal.dimensions]) hb .nil)
    · cases h
  · obtain ⟨b, hb, rfl⟩ := h
    exact .inForce (by simp [Temporal.dimensions]) hb .nil
  · obtain ⟨b, hb, rfl⟩ := h
    exact .inForce (by simp [Temporal.dimensions]) hb .nil
  · obtain ⟨p, hp, rfl⟩ := h
    exact .inForce (by simp [Temporal.dimensions]) hp .nil
  · obtain ⟨p, hp, rfl⟩ := h
    exact .inForce (by simp [Temporal.dimensions]) hp .nil
  · subst h
    rw [length_eq_zero_iff.1 (Nat.le_zero.1 hlength)]
    exact .nil

theorem datesAfter_inOrder (before : Option (Dates Expr)) (hlength : ds.length = target.dimensions.length) :
    (datesAfter before target ds).inOrder target = ds.map some ∧
      ∀ x ∉ target.dimensions, (datesAfter before target ds).get x = (before.getD .empty).get x := by
  rcases target with _ | _ | _ | _ <;> rcases ds with _ | ⟨d, _ | ⟨d', _ | ⟨_, _⟩⟩⟩ <;>
    simp [Temporal.dimensions] at hlength
  all_goals
    refine ⟨rfl, fun x hx => ?_⟩
    cases x <;> first | rfl | simp [Temporal.dimensions] at hx

theorem Dates.covers_of_inOrder {dates : Dates Expr} (h : dates.inOrder target = ds.map some) :
    dates.covers target = true := by
  refine all_eq_true.2 fun x hx => ?_
  have hmem : dates.get x ∈ ds.map some := h ▸ mem_map_of_mem hx
  obtain ⟨d, -, hd⟩ := mem_map.1 hmem
  simp [← hd]

/-- A dated class with a property of itself; a class with a property of the dated class; and one that
extends it with properties of its own, one of the same name. -/
def versions : Document :=
  { classes :=
      [{ header := { package := "m", name := "T" }
         annotations := { stereotypes := [{ profile := Temporal.profile, value := "businesstemporal" }] }
         properties := [one "next" "m::T"] },
       { header := { package := "m", name := "P" }, properties := [one "p" "m::T"] },
       { header := { package := "m", name := "Q" }, superTypes := [{ path := "m::P" }]
         properties := [one "p" "String", one "n" "String"] }] }
where
  one (name typeName : String) : PropertyDecl := { name, typeName, bounds := { lower := 1, upper := some 1 } }
  classOf (name : String) : TypeRef := { kind := .classType, path := "m::" ++ name, name }
  /-- A variable of a class. -/
  x (name : String) : Param := .ofType "x" (classOf name) .one
  today : Expr := .constant (.ofRef Library.date) {} (.text "today")
  /-- A property of the variable. -/
  selecting (name : String) : Node :=
    .mk { tag := Node.propertyTag, property := name } [.mk { tag := Node.variableTag, name := "x" } [] [] [] []]
      [] [] []

theorem versions_model : ∃ m q k p, (versions.build {}).result = .ok m ∧
    m.datedMember? (versions.classOf "T") "next" = some q ∧ m.rawTemporal q.type.raw = .business ∧
    (Navigation.dated m (versions.classOf "T") q "next" (versions.x "T").expr []
      (some ⟨none, some versions.today⟩) {}).toOption.isSome = true ∧
    m.datedMember? (versions.classOf "Q") "n" = none ∧ m.class? "m::Q" = some k ∧
    (k.properties.find? fun p => p.name = "n") = some p ∧ "p" ∈ k.properties.map (·.name) ∧
    (Expression.compile (.of m "") (versions.selecting "p") { scope := [{ param := versions.x "Q" }] }).1.toOption.isNone
      = true := by
  simp only [exists_and_left]
  decide +kernel

namespace Navigation

/-- **A dated navigation is given a date for each dimension.** The dates after the receiver are those
given and those in force, one for each dimension of the target. They are in force afterwards, and
cover the target; the dates of other dimensions stay. -/
theorem dated_filled {m : Model} {t : TypeRef} {q : QualifiedProperty} {name : String} {receiver e : Expr}
    {given : List Expr} {before : Option (Dates Expr)} {span : Span}
    (hname : endsWithText name allVersionsInRange = false)
    (hlength : given.length ≤ (m.rawTemporal q.type.raw).dimensions.length)
    (h : dated m t q name receiver given before span = .ok e) :
    ∃ found ds dates original, e = apply found name (receiver :: ds) (some dates) original span ∧
      ds.length = (m.rawTemporal q.type.raw).dimensions.length ∧
      Fills (m.sourceTemporal q t) (before.getD .empty) (m.rawTemporal q.type.raw).dimensions given ds ∧
      dates.inOrder (m.rawTemporal q.type.raw) = ds.map some ∧
      dates.covers (m.rawTemporal q.type.raw) = true ∧
      ∀ x ∉ (m.rawTemporal q.type.raw).dimensions, dates.get x = (before.getD .empty).get x := by
  unfold dated at h
  dsimp only at h
  rw [hname, Bool.false_or] at h
  -- Either way the dates in force are those that are passed.
  suffices hds : ∃ found ds original, e = apply found name (receiver :: ds)
        (some (datesAfter before (m.rawTemporal q.type.raw) ds)) original span ∧
      Fills (m.sourceTemporal q t) (before.getD .empty) (m.rawTemporal q.type.raw).dimensions given ds by
    obtain ⟨found, ds, original, he, hfills⟩ := hds
    obtain ⟨hdates, hothers⟩ := datesAfter_inOrder before hfills.length
    exact ⟨found, ds, _, original, he, hfills.length, hfills, hdates, Dates.covers_of_inOrder hdates, hothers⟩
  split at h
  · rename_i hneeded
    have hall : given.length = (m.rawTemporal q.type.raw).dimensions.length :=
      Nat.le_antisymm hlength (of_decide_eq_true hneeded)
    obtain ⟨found, -, h⟩ := Result.bind_eq_ok.1 h
    cases h
    refine ⟨found, given, [], ?_, fills_given hall⟩
    rw [if_pos (by simpa using hall)]
  · split at h
    · cases h
    · rename_i ds hds
      obtain ⟨found, -, h⟩ := Result.bind_eq_ok.1 h
      cases h
      exact ⟨found, ds, receiver :: given, rfl, fills_of_fillDates hlength hds⟩

/-- A date in force is that of the next navigation. -/
theorem versions_filled : ∃ m q e ds dates found original, (versions.build {}).result = .ok m ∧
    m.datedMember? (versions.classOf "T") "next" = some q ∧
    dated m (versions.classOf "T") q "next" (versions.x "T").expr [] (some ⟨none, some versions.today⟩) {} =
      .ok e ∧
    e = apply found "next" ((versions.x "T").expr :: ds) (some dates) original {} ∧ ds.length = 1 ∧
    dates.inOrder .business = ds.map some ∧ dates.covers .business = true ∧ dates.processing = none := by
  obtain ⟨m, q, -, -, hok, hq, htarget, hsome, -⟩ := versions_model
  obtain ⟨e, he⟩ := Option.isSome_iff_exists.1 hsome
  obtain ⟨found, ds, dates, original, happly, hlength, -, hdates, hcovers, hothers⟩ :=
    dated_filled (by decide) (Nat.zero_le _) (Result.toOption_eq_some.1 he)
  rw [htarget] at hlength hdates hcovers hothers
  exact ⟨m, q, e, ds, dates, found, original, hok, hq, Result.toOption_eq_some.1 he, happly,
    hlength, hdates, hcovers, hothers .processing (by simp [Temporal.dimensions])⟩

end Navigation

/-! ### Properties that a class lists itself -/

namespace Model

variable {m : Model} {t : TypeRef} {k : ClassContent} {name : String} {p : Property}

theorem Tidy.content_any (hm : m.Tidy) (h : m.class? Library.any.path = some k) : k.properties = [] := by
  obtain ⟨e, he, -, hempty⟩ := Library.any_found
  rw [class?, hm.element?_library he] at h
  exact hempty k h

theorem exists_order_eq_cons (m : Model) (ht : t ≠ Library.any) : ∃ rest, m.order t = t :: rest := by
  have hfound : preorder m.supers m.typeBound t = t :: (preorder m.supers m.typeBound t).drop 1 :=
    (cons_drop_preorder m.supers _ t).symm
  unfold order
  dsimp only
  rw [hfound, filter_cons_of_pos (by simpa using ht)]
  exact ⟨_, rfl⟩

/-- A stored property that a class lists itself is what its name means, with any arguments. -/
theorem Tidy.member_own (hm : m.Tidy) (hk : m.class? t.path = some k)
    (hp : (k.properties.find? fun p => p.name = name) = some p) (arity : Nat) (span : Span) :
    m.member t name arity span = .ok (.stored p) := by
  have ht : t ≠ Library.any := by
    rintro rfl
    rw [hm.content_any hk] at hp
    cases hp
  obtain ⟨rest, horder⟩ := m.exists_order_eq_cons ht
  have hown : ownMember? k name arity = some (.stored p) := by
    unfold ownMember?
    rw [find?_append, hp]
    rfl
  have hfound : ((m.classOrder t).findSome? fun x => ownMember? x.2 name arity) = some (.stored p) := by
    rw [classOrder, horder, filterMap_cons, hk]
    simp [hown]
  unfold member
  rw [hfound]

end Model

namespace Navigation

/-- **A stored property that a class lists itself is applied whenever the navigation succeeds.** It
fails where a generated property of the name asks for dates that are not in force. -/
theorem select_own {m : Model} (hm : m.Tidy) {t : TypeRef} {k : ClassContent} {name : String} {p : Property}
    {receiver : Expr} {before : Option (Dates Expr)} {span : Span} {s : ExprState}
    (ht : receiver.raw.class? = some t) (hk : m.class? t.path = some k)
    (hp : (k.properties.find? fun p => p.name = name) = some p)
    (hbefore : ExprM.datesOf receiver s = (.ok before, s)) :
    (∀ e s', select m name receiver [] span s = (.ok e, s') → s' = s ∧
      ∃ ds dates original, e = apply (.stored p) name (receiver :: ds) dates original span ∧
        (m.datedMember? t name = none → ds = [])) ∧
    ((∃ e s', select m name receiver [] span s = (.ok e, s')) ↔
      ∀ q, m.datedMember? t name = some q → endsWithText name allVersionsInRange = false →
        fillDates (m.sourceTemporal q t) (m.rawTemporal q.type.raw) [] (before.getD .empty) ≠ none) := by
  have hmember := hm.member_own hk hp
  unfold select
  rw [ht]
  dsimp only
  rw [ExprM.bind_run, hbefore]
  rcases hq : m.datedMember? t name with _ | q
  · dsimp only
    rw [hmember]
    refine ⟨?_, iff_of_true ⟨_, _, rfl⟩ (by simp)⟩
    rintro e s' ⟨⟩
    exact ⟨rfl, [], _, [], rfl, fun _ => rfl⟩
  · have hrun : ∀ r : Result Expr, ExprM.ofResult r s = (r, s) := fun _ => rfl
    simp only [reduceCtorEq, false_implies, and_true, Option.some.injEq, forall_eq']
    unfold dated
    dsimp only
    split
    · rename_i hall
      rw [hmember]
      refine ⟨?_, iff_of_true ⟨_, _, rfl⟩ fun hname => ?_⟩
      · rintro e s' ⟨⟩
        exact ⟨rfl, [], _, [], rfl⟩
      · rcases htarget : m.rawTemporal q.type.raw with _ | _ | _ | _ <;>
          simp_all [Temporal.dimensions, fillDates]
    · rename_i hmissing
      rw [Bool.or_eq_true, not_or, Bool.not_eq_true] at hmissing
      split
      · rename_i hnone
        refine ⟨nofun, iff_of_false ?_ fun h => h hmissing.1 hnone⟩
        rintro ⟨e, s', ⟨⟩⟩
      · rename_i ds hds
        rw [hmember]
        refine ⟨?_, iff_of_true ⟨_, _, rfl⟩ fun _ => by simp [hds]⟩
        rintro e s' ⟨⟩
        exact ⟨rfl, ds, _, [receiver], rfl⟩

end Navigation

theorem ExprM.datesOf_run (e : Expr) (s : ExprState) : ∃ dates, datesOf e s = (.ok dates, s) := by
  cases e <;> exact ⟨_, rfl⟩

namespace Expression

theorem compile_property {c : Context} {a : NodeAttrs} {r : Node} {body values subTrees : List Node}
    {s s' : ExprState} {receiver : Expr} (ha : a.form = .property) (hr : enumReceiver? c r.attrs = none)
    (hrun : compile c r s = (.ok receiver, s')) (hone : receiver.multiplicity.isOne = true) :
    compile c (.mk a [r] body values subTrees) s = Navigation.select c.model a.property receiver [] a.span s' := by
  unfold compile
  rw [ha]
  dsimp only
  rw [hr]
  dsimp only
  rw [ExprM.bind_run, hrun]
  dsimp only
  rw [if_pos hone]
  rfl

/-- **The property that a class lists itself is what its name means.** Where one value of the class is
navigated without arguments, that property is applied or the navigation fails. It fails if and only
if the class or a supertype has a generated property of the name that asks for a date which is not
in force; with no generated property of the name, the receiver is its only argument. -/
theorem own_property_applied {d : Document} {o : Options} {c : Context} (h : (d.build o).result = .ok c.model)
    {a : NodeAttrs} {r : Node} {body values subTrees : List Node} {s s' : ExprState} {receiver : Expr}
    (ha : a.form = .property) (hr : enumReceiver? c r.attrs = none) (hrun : compile c r s = (.ok receiver, s'))
    (hone : receiver.multiplicity.isOne = true) {t : TypeRef} {k : ClassContent} {p : Property}
    (ht : receiver.raw.class? = some t) (hk : c.model.class? t.path = some k)
    (hp : (k.properties.find? fun p => p.name = a.property) = some p) :
    ∃ before, ExprM.datesOf receiver s' = (.ok before, s') ∧
      (∀ e s'', compile c (.mk a [r] body values subTrees) s = (.ok e, s'') → s'' = s' ∧
        ∃ ds dates original, e = Navigation.apply (.stored p) a.property (receiver :: ds) dates original a.span ∧
          (c.model.datedMember? t a.property = none → ds = [])) ∧
      ((∃ e s'', compile c (.mk a [r] body values subTrees) s = (.ok e, s'')) ↔
        ∀ q, c.model.datedMember? t a.property = some q → endsWithText a.property allVersionsInRange = false →
          fillDates (c.model.sourceTemporal q t) (c.model.rawTemporal q.type.raw) [] (before.getD .empty) ≠ none) := by
  have htidy : c.model.Tidy := Document.tidy_of_runs (append_nil _).symm ((runPasses_result _ _).1 h)
  obtain ⟨before, hbefore⟩ := ExprM.datesOf_run receiver s'
  rw [compile_property ha hr hrun hone]
  exact ⟨before, hbefore, Navigation.select_own htidy ht hk hp hbefore⟩

/-- A property that a class lists itself, under a name that no generated property has. -/
theorem versions_own : ∃ m p dates original, (versions.build {}).result = .ok m ∧ p.name = "n" ∧
    (compile (.of m "") (versions.selecting "n") { scope := [{ param := versions.x "Q" }] }).1 =
      .ok (Navigation.apply (.stored p) "n" [(versions.x "Q").expr] dates original {}) := by
  obtain ⟨m, -, k, p, hok, -, -, -, hnone, hk, hp, -⟩ := versions_model
  obtain ⟨before, -, happlied, hsucceeds⟩ := @own_property_applied _ _ (.of m "") hok
    { tag := Node.propertyTag, property := "n" } (.mk { tag := Node.variableTag, name := "x" } [] [] [] [])
    [] [] [] { scope := [{ param := versions.x "Q" }] } _ _ rfl rfl rfl rfl _ _ _ rfl hk hp
  obtain ⟨e, s', hrun⟩ := hsucceeds.2 fun q hq => nomatch hnone.symm.trans hq
  obtain ⟨-, ds, dates, original, rfl, hds⟩ := happlied e s' hrun
  refine ⟨m, p, dates, original, hok, by simpa using find?_some hp, ?_⟩
  rw [hds hnone] at hrun
  exact congrArg Prod.fst hrun

/-- A property that a class lists itself is not applied: a supertype has a generated one of its name. -/
theorem versions_hidden : ∃ m k, (versions.build {}).result = .ok m ∧ m.class? "m::Q" = some k ∧
    "p" ∈ k.properties.map (·.name) ∧
    (compile (.of m "") (versions.selecting "p") { scope := [{ param := versions.x "Q" }] }).1.toOption.isNone = true := by
  obtain ⟨m, -, k, -, hok, -, -, -, -, hk, -, hp, hfails⟩ := versions_model
  exact ⟨m, k, hok, hk, hp, hfails⟩

end Expression
end ModelGraph
