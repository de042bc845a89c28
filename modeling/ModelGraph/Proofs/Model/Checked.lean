/-
# Checked models

A model is checked if all of its expressions are sound, the bodies of its functions and
derived properties give what they declare, and conditions of constraints give truth
values. A derived property of an association is held by the association and by a class;
a table of the declared types says that both mean the same one.

Key definitions: `Element.expressions`, `Element.Checked`, `Model.Advances`.
Key theorems: `Model.Checked.grows`, `advances_rewriteClass`, `Model.Checked.class?`.
-/
import ModelGraph.Proofs.Build.Growth

namespace ModelGraph

open Model Option

variable {e : Element} {c : ClassContent} {τ : Nat → Option Typed} {q : QualifiedProperty} {x : ElementContent}

/-! ### The expressions of a model -/

def Property.expressions (p : Property) : List Expr := p.default.toList

def Constraint.expressions (k : Constraint) : List Expr := k.condition :: k.message.toList

def ClassContent.expressions (c : ClassContent) : List Expr :=
  (c.properties ++ c.assocProperties ++ c.originals).flatMap Property.expressions ++
    (c.qualified ++ c.assocQualified).flatMap (·.body) ++ c.constraints.flatMap Constraint.expressions

def AssociationContent.expressions (a : AssociationContent) : List Expr :=
  (a.properties ++ a.originals).flatMap Property.expressions ++ a.qualified.flatMap (·.body)

def FunctionTest.expressions (t : FunctionTest) : List Expr :=
  t.arguments.flatMap (fun a => a.value.toList) ++ t.assertion.expected.toList

def FunctionContent.expressions (f : FunctionContent) : List Expr :=
  f.body ++ (f.preConstraints ++ f.postConstraints).flatMap Constraint.expressions ++
    f.tests.flatMap FunctionTest.expressions

def PropertyMapping.expressions (p : PropertyMapping) : List Expr :=
  p.property.expressions ++ p.transform.toList ++ p.crossExpression.toList

def AggregateSpec.expressions (s : AggregateSpec) : List Expr :=
  s.groupBy ++ s.values.flatMap fun v => [v.1, v.2]

namespace SetImplementation

mutual

def expressions : SetImplementation → List Expr
  | instances b _ filter => b.properties.flatMap PropertyMapping.expressions ++ filter.toList
  | operation b _ _ _ validation => b.properties.flatMap PropertyMapping.expressions ++ validation.toList
  | aggregation b main aggregates =>
    b.properties.flatMap PropertyMapping.expressions ++ expressions main ++ expressionsOfAggregates aggregates
  | relational b _ _ _ => b.properties.flatMap PropertyMapping.expressions

def expressionsOfAggregates : List (AggregateSpec × SetImplementation) → List Expr
  | [] => []
  | (spec, s) :: rest => spec.expressions ++ expressions s ++ expressionsOfAggregates rest

end

end SetImplementation

def Mapping.expressions (x : Mapping) : List Expr :=
  x.sets.flatMap SetImplementation.expressions ++
    x.assocMappings.flatMap (fun a => a.properties.flatMap PropertyMapping.expressions) ++
    x.tests.map (·.query)

def Element.expressions (e : Element) : List Expr :=
  match e.content with
  | .classType c => c.expressions
  | .association a => a.expressions
  | .function f => f.expressions
  | .unit _ conversion => conversion.toList
  | .mapping x => x.expressions
  | _ => []

/-! ### Checked elements -/

/-- The types of the declared derived properties of associations, by path and number. -/
abbrev Signatures : Type := String → Nat → Option Typed

variable {m m' : Model} {σ σ' : Signatures} {K : Option Category → Prop} {p : String}

/-- A derived property has sound expressions. A declared one has the type that `τ` says
for its number, and its body gives a value of it. -/
structure QualifiedProperty.Checked (m : Model) (τ : Nat → Option Typed) (q : QualifiedProperty) : Prop where
  sound : ∀ x ∈ q.body, m.Sound x
  signature : ∀ {i}, q.ordinal = some i → τ i = some (q.type, q.multiplicity)
  result : ∀ {i last}, q.ordinal = some i → q.body.getLast? = some last →
    m.Admits (q.type, q.multiplicity) last

/-- The condition of a constraint gives a truth value. -/
def Constraint.IsCondition (k : Constraint) : Prop :=
  ∃ last, k.condition.lastOfBody? = some last ∧ last.raw.path = Library.boolean.path

/-- A constraint has sound expressions and a condition. -/
structure Constraint.Checked (m : Model) (k : Constraint) : Prop where
  sound : ∀ x ∈ k.expressions, m.Sound x
  condition : k.IsCondition

structure ClassContent.Checked (σ : Signatures) (m : Model) (c : ClassContent) : Prop where
  properties : ∀ p ∈ c.properties, ∀ x ∈ p.expressions, m.Sound x
  assocProperties : ∀ p ∈ c.assocProperties, ∀ x ∈ p.expressions, m.Sound x
  originals : ∀ p ∈ c.originals, ∀ x ∈ p.expressions, m.Sound x
  qualified : ∃ τ, ∀ q ∈ c.qualified, q.Checked m τ
  assocQualified : ∀ q ∈ c.assocQualified, q.Checked m (σ q.owner)
  constraints : ∀ k ∈ c.constraints, k.Checked m

structure AssociationContent.Checked (σ : Signatures) (m : Model) (a : AssociationContent) : Prop where
  properties : ∀ p ∈ a.properties, ∀ x ∈ p.expressions, m.Sound x
  originals : ∀ p ∈ a.originals, ∀ x ∈ p.expressions, m.Sound x
  qualified : ∀ q ∈ a.qualified, q.Checked m (σ q.owner)
  signatures : ∀ q ∈ a.signatures, q.Checked m (σ q.owner)

structure FunctionContent.Checked (m : Model) (f : FunctionContent) : Prop where
  body : ∀ x ∈ f.body, m.Sound x
  result : ∀ {last}, f.body.getLast? = some last → m.Admits (f.resultType, f.result) last
  preConstraints : ∀ k ∈ f.preConstraints, k.Checked m
  postConstraints : ∀ k ∈ f.postConstraints, k.Checked m
  tests : ∀ t ∈ f.tests, ∀ x ∈ t.expressions, m.Sound x

def ElementContent.Checked (σ : Signatures) (m : Model) : ElementContent → Prop
  | .classType c => c.Checked σ m
  | .association a => a.Checked σ m
  | .function f => f.Checked m
  | .unit _ conversion => ∀ x ∈ conversion, m.Sound x
  | .mapping x => ∀ y ∈ x.expressions, m.Sound y
  | _ => True

/-! ### Along a build -/

theorem QualifiedProperty.Checked.grows (h : q.Checked m τ) (hg : Grows K m m') (hm : m.Tidy) : q.Checked m' τ where
  sound x hx := hg.sound hm (h.sound x hx)
  signature := h.signature
  result hi hl := hg.admits hm (h.result hi hl)

theorem Constraint.Checked.grows {k : Constraint} (h : k.Checked m) (hg : Grows K m m') (hm : m.Tidy) :
    k.Checked m' where
  sound x hx := hg.sound hm (h.sound x hx)
  condition := h.condition

theorem ElementContent.Checked.grows (h : x.Checked σ m) (hg : Grows K m m') (hm : m.Tidy) : x.Checked σ m' := by
  have sound {x : Expr} (hx : m.Sound x) : m'.Sound x := hg.sound hm hx
  cases x with
  | classType c =>
    obtain ⟨τ, hτ⟩ := h.qualified
    exact
      { properties := fun p hp x hx => sound (h.properties p hp x hx)
        assocProperties := fun p hp x hx => sound (h.assocProperties p hp x hx)
        originals := fun p hp x hx => sound (h.originals p hp x hx)
        qualified := ⟨τ, fun q hq => (hτ q hq).grows hg hm⟩
        assocQualified := fun q hq => (h.assocQualified q hq).grows hg hm
        constraints := fun k hk => (h.constraints k hk).grows hg hm }
  | association a =>
    exact
      { properties := fun p hp x hx => sound (h.properties p hp x hx)
        originals := fun p hp x hx => sound (h.originals p hp x hx)
        qualified := fun q hq => (h.qualified q hq).grows hg hm
        signatures := fun q hq => (h.signatures q hq).grows hg hm }
  | function f =>
    exact
      { body := fun x hx => sound (h.body x hx)
        result := fun hl => hg.admits hm (h.result hl)
        preConstraints := fun k hk => (h.preConstraints k hk).grows hg hm
        postConstraints := fun k hk => (h.postConstraints k hk).grows hg hm
        tests := fun t ht x hx => sound (h.tests t ht x hx) }
  | unit => exact fun x hx => sound (h x hx)
  | mapping => exact fun x hx => sound (h x hx)
  | _ => trivial

namespace Model

/-- A tidy model whose elements are all checked, with signatures of declared associations. -/
structure Checked (σ : Signatures) (m : Model) : Prop where
  tidy : m.Tidy
  signatures : ∀ {o i t}, σ o i = some t → (m.declared? o).isSome
  elements : ∀ {p e}, m.declared? p = some e → e.content.Checked σ m

theorem Grows.declared?_isSome (h : Grows K m m') (hp : (m.declared? p).isSome) : (m'.declared? p).isSome := by
  obtain ⟨e, he⟩ := isSome_iff_exists.1 hp
  obtain ⟨e', he', -⟩ := h.kept he
  rw [he']
  rfl

/-- A model that has grown is checked if the new and changed elements are. -/
theorem Checked.grows (h : m.Checked σ) (hg : Grows K m m')
    (hnew : ∀ {p e}, m'.declared? p = some e → m.declared? p = some e ∨ e.content.Checked σ m') :
    m'.Checked σ where
  tidy := hg.tidy h.tidy
  signatures hσ := hg.declared?_isSome (h.signatures hσ)
  elements he := by
    rcases hnew he with he | he
    · exact (h.elements he).grows hg h.tidy
    · exact he

theorem Checked.noted (h : m.Checked σ) (hn : m.Noted m') : m'.Checked σ :=
  h.grows (hn.grows (K := fun _ => True)) fun {p _} he => .inl ((hn.declared? p).symm.trans he)

theorem Checked.update (h : m.Checked σ) {f : Element → Element} (hf : ∀ e, (f e).path = e.path)
    (hg : Grows K m (m.update p f))
    (hnew : ∀ e, m.declared? p = some e → (f e).content.Checked σ m) : (m.update p f).Checked σ := by
  refine h.grows hg fun {q e} he => ?_
  rw [declared?_update hf] at he
  split at he
  · rename_i hq
    subst hq
    obtain ⟨x, hx, rfl⟩ := map_eq_some_iff.1 he
    exact .inr ((hnew x hx).grows hg h.tidy)
  · exact .inl he

theorem Checked.association (h : m.Checked σ) {a : AssociationContent} (he : m.declared? p = some e)
    (ha : e.content = .association a) : a.Checked σ m := by
  have := h.elements he
  rwa [ha] at this

theorem Checked.setContent (h : m.Checked σ) {content : ElementContent}
    (hg : Grows K m (m.setContent p content)) (hc : content.Checked σ m) :
    (m.setContent p content).Checked σ := h.update (fun _ => rfl) hg fun _ _ => hc

end Model

/-! ### Classes -/

/-- Whether a class has neither default values nor derived properties nor constraints. -/
def ClassContent.isWordless (c : ClassContent) : Bool :=
  c.properties.all (·.default.isNone) && c.assocProperties.isEmpty && c.originals.isEmpty &&
    c.qualified.isEmpty && c.assocQualified.isEmpty && c.constraints.isEmpty

theorem ClassContent.checked_of_isWordless (h : c.isWordless = true) : c.Checked σ m := by
  simp only [isWordless, Bool.and_eq_true, List.all_eq_true, List.isEmpty_iff,
    isNone_iff_eq_none] at h
  obtain ⟨⟨⟨⟨⟨h₁, h₂⟩, h₃⟩, h₄⟩, h₅⟩, h₆⟩ := h
  refine ⟨fun p hp x hx => ?_, by simp [h₂], by simp [h₃], ⟨fun _ => none, by simp [h₄]⟩, by simp [h₅],
    by simp [h₆]⟩
  simp [Property.expressions, h₁ p hp] at hx

theorem Library.isWordless_classes :
    (plainGroups.all fun g => g.2.all fun e => e.class?.all (·.isWordless)) = true := by decide +kernel

theorem Library.class_isWordless (h : find? p = some e) (hc : e.class? = some c) : c.isWordless = true := by
  rcases plain_or_native h with ⟨g, hg, he⟩ | ⟨n, package, rfl⟩
  · have hall := List.all_eq_true.1 (List.all_eq_true.1 isWordless_classes g hg) e he
    rw [hc] at hall
    exact hall
  · cases hc

namespace Model

theorem Checked.class? (h : m.Checked σ) (hc : m.class? p = some c) : c.Checked σ m := by
  obtain ⟨e, he, hc⟩ := bind_eq_some_iff.1 hc
  unfold element? at he
  split at he
  · rename_i x hx
    cases he
    have hx := h.elements hx
    unfold Element.class? at hc
    split at hc <;> cases hc
    rename_i hcontent
    rwa [hcontent] at hx
  · exact ClassContent.checked_of_isWordless (Library.class_isWordless he hc)

theorem Checked.classOf (h : m.Checked σ) (p : String) : ((m.class? p).getD {}).Checked σ m := by
  rcases hc : m.class? p with _ | c
  · exact ClassContent.checked_of_isWordless rfl
  · exact h.class? hc

theorem Checked.updateClass (h : m.Checked σ) {f : ClassContent → ClassContent}
    (hs : ∀ c, (f c).stage = c.stage) (hsup : ∀ c, (f c).supers = c.supers)
    (hf : ∀ c, c.Checked σ m → (f c).Checked σ m) : (m.updateClass p f).Checked σ := by
  refine h.update (fun e => ?_) (grows_updateClass hs hsup) fun e he => ?_
  · split <;> rfl
  · have he := h.elements he
    split
    · rename_i c hc
      rw [hc] at he
      exact hf c he
    · exact he

/-! ### Steps -/

/-- The model grows, and it stays checked if it was. -/
structure Advances (K : Option Category → Prop) (m m' : Model) : Prop where
  grows : Grows K m m'
  checked : ∀ {σ}, m.Checked σ → m'.Checked σ

theorem Advances.refl (m : Model) : Advances K m m := ⟨.refl m, id⟩

theorem Advances.trans {n : Model} (h : Advances K m n) (k : Advances K n m') : Advances K m m' :=
  ⟨h.grows.trans k.grows, fun hm => k.checked (h.checked hm)⟩

theorem Noted.advances (h : m.Noted m') : Advances K m m' := ⟨h.grows, fun hm => hm.noted h⟩

theorem advances_setContent {content : ElementContent} (hg : Grows K m (m.setContent p content))
    (hc : ∀ {σ}, m.Checked σ → content.Checked σ m) : Advances K m (m.setContent p content) :=
  ⟨hg, fun h => h.setContent hg (hc h)⟩

end Model

namespace Build

variable {x : Build Unit} (hx : x.Ensures m fun _ m' => Advances K m m')
include hx

theorem Ensures.grows : x.Ensures m fun _ m' => Grows K m m' := hx.mono fun _ _ h => h.grows

theorem Ensures.checked (h : m.Checked σ) : x.Ensures m fun _ m' => m'.Checked σ := hx.mono fun _ _ k => k.checked h

end Build

section Class

variable {n : Model} (hm : Advances (among [.classType]) m n) (hd : m.Has p .classType)
include hm hd

/-- A class is written back after a change of its members. -/
theorem advances_rewriteClass {f : ClassContent → ClassContent} (hr : ∀ c, c.stage.rank ≤ (f c).stage.rank)
    (hs : ∀ c, (f c).supers = c.supers)
    (hf : ∀ {c σ}, n.class? p = some c → n.Checked σ → c.Checked σ n → (f c).Checked σ n) :
    (do let c ← Build.classOf p
        Build.setClass p (f c)).Ensures n fun _ m' => Advances (among [.classType]) m m' := by
  obtain ⟨_, c, -, -, hclass⟩ := (hm.grows.has hd).class?
  rw [Build.ensures_bind, Build.ensures_classOf, hclass, Build.ensures_setClass]
  exact hm.trans (advances_setContent (grows_setClass _ (hm.grows.has hd) hclass (hr c) (.inl (hs c)))
    fun h => hf hclass h (h.class? hclass))

/-- A class is written back at a later stage. -/
theorem advances_advanceClass {f : ClassContent → Stage → ClassContent} {next : Stage}
    (hr : ∀ c, (f c next).stage = next) (hs : ∀ c, (f c next).supers = c.supers)
    (hf : ∀ {c σ}, n.Checked σ → c.Checked σ n → (f c next).Checked σ n) :
    (do let c ← Build.classOf p
        let stage ← c.stage.advance next
        Build.setClass p (f c stage)).Ensures n fun _ m' => Advances (among [.classType]) m m' := by
  obtain ⟨_, c, -, -, hclass⟩ := (hm.grows.has hd).class?
  simp only [Build.ensures_bind, Build.ensures_classOf, hclass, Build.ensures_liftM, Build.ensures_setClass]
  intro stage hstage
  obtain ⟨rfl, hlt⟩ := Stage.advance_ok hstage
  have hrank : c.stage.rank ≤ (f c stage).stage.rank := by
    rw [hr]
    exact Int.le_of_lt hlt
  exact hm.trans (advances_setContent (grows_setClass _ (hm.grows.has hd) hclass hrank (.inl (hs c)))
    fun h => hf h (h.class? hclass))

end Class

end ModelGraph
