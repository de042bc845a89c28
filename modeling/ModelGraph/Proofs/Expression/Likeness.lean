/-
# What an expression is compiled from

An expression is compiled without a look into mappings. So what a compilation reads of a
model comes to the same in models that are alike: which candidates accept arguments and what
they give, what a path of members leads to, parameters and constants.

Key theorems: `Navigation.select_like`, `Expression.apply_like`, `Expression.element_like`.
-/
import ModelGraph.Domain.Member
import ModelGraph.Proofs.Model.Likeness

namespace ModelGraph

open Model Library

variable {m m' : Model} {c c' : Context}

/-! ### Candidates -/

theorem Native.resultOf_like (h : m.Like m') (n : Native) (args : List Expr) :
    n.resultOf m' args = n.resultOf m args := by
  unfold resultOf
  simp only [h.commonSuper]

theorem Candidate.resultOf_like (h : m.Like m') (args : List Expr) (f : Candidate) :
    f.resultOf m' args = f.resultOf m args := by
  cases f with
  | native package n => exact n.resultOf_like h args
  | declared => rfl

theorem Candidate.fitAll_like (h : m.Like m') : ∀ (ps : List Typed) (args : List Expr),
    fitAll m' ps args = fitAll m ps args
  | [], [] => rfl
  | [], _ :: _ => rfl
  | _ :: _, [] => rfl
  | p :: ps, a :: args => by rw [fitAll, fitAll, fits, fits, h.isSubType, fitAll_like h ps args]

theorem Candidate.accepts_like (h : m.Like m') (args : List Expr) (f : Candidate) :
    f.accepts m' args = f.accepts m args :=
  fitAll_like h _ _

/-! ### Navigation -/

theorem Navigation.dated_like (h : m.Like m') : dated m' = dated m := by
  unfold dated
  simp only [h.rawTemporal, h.member, h.sourceTemporal]

theorem Navigation.select_like (h : m.Like m') : select m' = select m := by
  unfold select
  simp only [h.datedMember?, h.member, dated_like h]

theorem thisBinding_like (h : m.Like m') : thisBinding m' = thisBinding m := by
  unfold thisBinding
  simp only [h.temporal, h.member]

/-! ### Calls -/

namespace Expression

theorem callDates_like (h : m.Like m') : callDates m' = callDates m := by
  unfold callDates
  simp only [h.rawTemporal]

theorem apply_like (h : c.Like c') : apply c' = apply c := by
  funext found args span
  unfold apply
  simp only [found.resultOf_like h.model, callDates_like h.model]

/-! ### Variables -/

theorem variableExpr_like (h : c.Like c') : variableExpr c' = variableExpr c := by
  unfold variableExpr
  simp only [h.parameter]

theorem bindParameters_like (h : c.Like c') : ∀ (as : List NodeAttrs) (typed : List Typed)
    (dates : Option (Dates Expr)), bindParameters c' as typed dates = bindParameters c as typed dates
  | [], _, _ => rfl
  | a :: as, typed, dates => by
    have hparameter : lambdaParameter c' a typed.head? = lambdaParameter c a typed.head? := by
      unfold lambdaParameter
      rw [h.parameter]
    unfold bindParameters
    simp only [hparameter, bindParameters_like h as]

/-! ### Constants -/

/-- A reference to an element does not look into a mapping. -/
theorem element_like (h : c.Like c') : element c' = element c := by
  funext a
  have hresolve := h.resolveElement a.path a.span
  have hclassifier : ∀ (e : Element) (serial : Nat),
      classifier serial e.outline = classifier serial e := by
    intro e serial
    unfold Element.outline
    split
    · rename_i x hx
      rw [classifier, classifier, hx]
    · rfl
  have hpath : ∀ e e' : Element, e'.outline = e.outline → e'.path = e.path := fun e e' he => by
    rw [← Element.path_outline, he, Element.path_outline]
  unfold element
  rw [h.isPackage]
  split
  · rfl
  rcases he : c.resolveElement a.path a.span with f | e <;>
    rcases he' : c'.resolveElement a.path a.span with f' | e' <;> rw [he, he'] at hresolve
  · cases hresolve
    rfl
  · cases hresolve
  · cases hresolve
  · have hout : e'.outline = e.outline := Except.ok.inj hresolve
    funext s
    show ((Except.ok _, _) : Result Expr × ExprState) = (Except.ok _, _)
    rw [← hclassifier e', hout, hclassifier e, hpath e e' hout]

theorem enumValue_like (h : c.Like c') : enumValue c' = enumValue c := by
  unfold enumValue
  rw [h.resolve (by decide)]

theorem enumReceiver?_like (h : c.Like c') : enumReceiver? c' = enumReceiver? c := by
  unfold enumReceiver?
  rw [h.resolve (by decide)]

theorem collect_like (h : c.Like c') : collect c' = collect c := by
  unfold collect
  rw [h.model.commonSuper]

end Expression
end ModelGraph
