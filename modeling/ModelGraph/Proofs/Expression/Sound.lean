/-
# Sound expressions

An expression is sound in a model if every call in it, however deep, is one that the
model allows: a function gets as many arguments as it has parameters, each admitted by
its parameter, and a property is applied to exactly one instance of a class. As the
model grows, sound expressions stay sound.

Key definitions: `Expr.parts`, `Expr.All`.
Key theorems: `Expr.all_iff`, `Expr.all_call`, `Model.Grows.sound`.
-/
import ModelGraph.Proofs.Hierarchy

namespace ModelGraph

open Relation List

/-! ### Parts of expressions -/

mutual

/-- The arguments in a branch of a graph fetch tree and in those under it. -/
def FetchBranch.arguments : FetchBranch → List Expr
  | .mk _ _ args _ _ branches => args ++ FetchBranch.argumentsOfAll branches

def FetchBranch.argumentsOfAll : List FetchBranch → List Expr
  | [] => []
  | b :: bs => FetchBranch.arguments b ++ FetchBranch.argumentsOfAll bs

end

def Value.parts : Value → List Expr
  | .expr e => [e]
  | .tree (.mk _ _ branches) => FetchBranch.argumentsOfAll branches
  | _ => []

def Dates.toList {α : Type} (d : Dates α) : List α := d.processing.toList ++ d.business.toList

namespace Expr

/-- The expressions that an expression is made of: the items of a constant, the arguments
of a call with the dates after it, the body of a lambda. -/
def parts : Expr → List Expr
  | instances _ values => values.flatMap Value.parts
  | var _ _ => []
  | call _ _ _ args _ dates original => args ++ dates.toList.flatMap Dates.toList ++ original
  | lambda _ _ body _ => body

/-- An expression occurs in another, at any depth. -/
def Within (x e : Expr) : Prop := ReflTransGen (fun a b => b ∈ parts a) e x

def All (P : Expr → Prop) (e : Expr) : Prop := ∀ x, x.Within e → P x

section

variable {P : Expr → Prop} {e : Expr}

theorem all_iff : e.All P ↔ P e ∧ ∀ p ∈ e.parts, p.All P := by
  constructor
  · intro h
    exact ⟨h e .refl, fun p hp x hx => h x (.head hp hx)⟩
  · rintro ⟨he, h⟩ x hx
    rcases ReflTransGen.cases_head hx with rfl | ⟨p, hp, hx⟩
    · exact he
    · exact h p hp x hx

theorem all_instances {i : ExprInfo} {vs : List Value} :
    (instances i vs).All P ↔ P (instances i vs) ∧ ∀ v ∈ vs, ∀ p ∈ v.parts, p.All P := by
  rw [all_iff]
  simp only [parts, mem_flatMap]
  refine and_congr_right fun _ => ⟨fun h v hv p hp => h p ⟨v, hv, hp⟩, ?_⟩
  rintro h p ⟨v, hv, hp⟩
  exact h v hv p hp

theorem all_call {i : ExprInfo} {name property : String} {callee : Callee} {args original : List Expr}
    {dates : Option (Dates Expr)} : (call i name callee args property dates original).All P ↔
      P (call i name callee args property dates original) ∧ (∀ a ∈ args, a.All P) ∧
        (∀ d, dates = some d → ∀ x ∈ d.toList, x.All P) ∧ ∀ a ∈ original, a.All P := by
  rw [all_iff]
  simp only [parts, mem_append, mem_flatMap, Option.mem_toList]
  refine and_congr_right fun _ => ⟨fun h => ⟨?_, ?_, ?_⟩, ?_⟩
  · exact fun a ha => h a (.inl (.inl ha))
  · exact fun d hd x hx => h x (.inl (.inr ⟨d, hd, hx⟩))
  · exact fun a ha => h a (.inr ha)
  · rintro ⟨ha, hd, ho⟩ p ((hp | ⟨d, hp, hx⟩) | hp)
    · exact ha p hp
    · exact hd d hp p hx
    · exact ho p hp

end

/-- An expression is exactly one instance of a class. -/
def IsReceiver (e : Expr) : Prop := e.raw.class?.isSome ∧ e.multiplicity = .one

end Expr

namespace Library

def natives : List Element := nativeGroups.flatMap fun g => g.2.map fun n => n.element g.1

theorem mem_natives {g : String × Native} {name : String} (h : g ∈ nativesCalled name) :
    g.2.element g.1 ∈ natives := by
  obtain ⟨x, hx, h⟩ := mem_flatMap.1 h
  obtain ⟨n, hn, rfl⟩ := mem_map.1 h
  exact mem_flatMap.2 ⟨x, hx, mem_map.2 ⟨n, mem_of_mem_filter hn, rfl⟩⟩

end Library

namespace Model

/-- The function of a path, of the model or of the library, has the given parameters. -/
def Takes (m : Model) (path : String) (ps : List Typed) : Prop :=
  ∃ e, (e ∈ m.elements ∨ e ∈ Library.natives) ∧ e.path = path ∧ e.parameters? = some ps

def Admits (m : Model) (declared : Typed) (e : Expr) : Prop :=
  m.isSubType e.raw declared.1.raw = true ∧ declared.2.subsumes e.multiplicity = true

/-- What the model asks of an expression by itself. A function gets arguments that its
parameters admit, one by one, and a property is applied to a receiver. -/
def Allows (m : Model) : Expr → Prop
  | .call _ _ (.function path) args _ _ _ => ∃ ps, m.Takes path ps ∧ List.Forall₂ m.Admits ps args
  | .call _ _ _ args _ _ _ => ∃ receiver, args.head? = some receiver ∧ receiver.IsReceiver
  | _ => True

def Sound (m : Model) (e : Expr) : Prop := ∀ x, x.Within e → m.Allows x

def SoundDates (m : Model) (dates : Option (Dates Expr)) : Prop :=
  ∀ d, dates = some d → ∀ x ∈ d.toList, m.Sound x

variable {m m' : Model} {K : Option Category → Prop} {e : Expr}

theorem soundDates_none : m.SoundDates none := nofun

/-! ### Along a build -/

theorem Grows.takes (h : Grows K m m') (hm : m.Tidy) {path : String} {ps : List Typed}
    (ht : m.Takes path ps) : m'.Takes path ps := by
  obtain ⟨e, he | he, rfl, hps⟩ := ht
  · obtain ⟨e', he', hg, -⟩ := h.kept (hm.distinct.declared? he)
    exact ⟨e', .inl (mem_of_declared? he'), hg.path, hg.parameters.trans hps⟩
  · exact ⟨e, .inr he, rfl, hps⟩

theorem Grows.admits (h : Grows K m m') (hm : m.Tidy) {t : Typed} (he : m.Admits t e) : m'.Admits t e :=
  ⟨h.isSubType hm he.1, he.2⟩

theorem Grows.allows (h : Grows K m m') (hm : m.Tidy) (he : m.Allows e) : m'.Allows e := by
  unfold Allows at he ⊢
  split at he
  · obtain ⟨ps, hps, hargs⟩ := he
    exact ⟨ps, h.takes hm hps, hargs.imp fun _ _ => h.admits hm⟩
  · exact he
  · trivial

theorem Grows.sound (h : Grows K m m') (hm : m.Tidy) (he : m.Sound e) : m'.Sound e :=
  fun x hx => h.allows hm (he x hx)

end Model
end ModelGraph
