/-
# Told failures

A failure is told if it states a position or names a request that nothing supports, and is
not about a stage; one that is plain does neither. Names fail with problems at a position.

Key definitions: `Problem.isStage`, `Failure.Told`.
Key theorems: `Context.search_told`, `Context.parameter_told`, `Navigation.dated_told`.
-/
import ModelGraph.Proofs.Build.Failures

namespace ModelGraph

/-- Whether the problem is that an element cannot move on to a stage. -/
def Problem.isStage : Problem → Bool
  | invalidStage _ _ => true
  | _ => false

/-- The failure is not a plain one, and not about a stage. -/
def Failure.Told : Failure → Prop
  | diagnosed _ problem _ _ => problem.isStage = false
  | unsupported _ => True
  | plain _ => False

theorem Failure.told_of (span : Span) (problem : Problem) (h : problem.isStage = false) :
    (Failure.of span problem).Told := h

theorem Failure.told_unsupported (what : Unsupported) : (Failure.unsupported what).Told := trivial

theorem Failure.told_wrap (f : Failure) (span : Span) (problem : Problem)
    (h : problem.isStage = false) : (f.wrap span problem).Told := h

abbrev Result.Told {α : Type} (r : Result α) : Prop := r.Throws Failure.Told

/-- Every failure of the step is told. -/
abbrev Build.Told {α : Type} (x : Build α) : Prop := x.Throws Failure.Told

variable {α β : Type}

namespace Result

theorem told_failAt (span : Span) (problem : Problem) (h : problem.isStage = false) :
    Told (failAt span problem : Result α) := throws_failAt (Failure.told_of span problem h)

theorem told_unsupported (what : Unsupported) : Told (.error (.unsupported what) : Result α) :=
  throws_error (Failure.told_unsupported what)

end Result

section Names

open Result

/-! ### Names -/

theorem Model.lookup_told (m : Model) (k : Category) (path : String) (span : Span) :
    Told (m.lookup k path span) := by
  unfold lookup
  split
  · exact throws_ok _
  · exact told_failAt _ _ rfl

namespace Context

variable (c : Context)

theorem search_told {get : String → Result α} (path : String) (span : Span) (h : ∀ p, Told (get p)) :
    Told (c.search path span get) := by
  refine throws_ite (h _) ?_
  dsimp only
  split
  · exact h _
  · exact throws_ok _
  · exact told_failAt _ _ rfl

theorem resolve_told (k : Category) (path : String) (span : Span) : Told (c.resolve k path span) :=
  c.search_told _ _ fun p => c.model.lookup_told k p span

theorem resolveType_told (path : String) (span : Span) : Told (c.resolveType path span) :=
  (c.resolve_told _ _ _).map

theorem resolveClass_told (path : String) (span : Span) : Told (c.resolveClass path span) :=
  (c.resolve_told _ _ _).map

theorem resolveGeneric_told (path : String) (span : Span) : Told (c.resolveGeneric path span) :=
  (c.resolveType_told _ _).map

theorem resolveElement_told (path : String) (span : Span) : Told (c.resolveElement path span) := by
  refine c.search_told _ _ fun p => throws_ite (throws_ok _) ?_
  split
  · exact throws_ok _
  · exact throws_ite (throws_ok _) (told_failAt _ _ rfl)

theorem enumValue_told (e : Element) (name : String) (span : Span) : Told (enumValue e name span) := by
  unfold enumValue
  split
  · exact throws_ok _
  · exact told_failAt _ _ rfl

theorem resolveEnumValue_told (path name : String) (enumSpan span : Span) :
    Told (c.resolveEnumValue path name enumSpan span) :=
  (c.resolve_told _ _ _).bind fun e => (enumValue_told e _ _).bind fun _ => throws_ok _

theorem resolveStereotype_told (ref : ProfileRef) : Told (c.resolveStereotype ref) :=
  (c.resolve_told _ _ _).bind fun _ => throws_ite (throws_ok _) (told_failAt _ _ rfl)

theorem resolveTag_told (ref : ProfileRef) : Told (c.resolveTag ref) :=
  (c.resolve_told _ _ _).bind fun _ => throws_ite (throws_ok _) (told_failAt _ _ rfl)

theorem annotations_told (decls : AnnotationDecls) : Told (c.annotations decls) :=
  (throws_mapM fun _ _ => c.resolveStereotype_told _).bind fun _ =>
    (throws_mapM fun _ _ => (c.resolveTag_told _).bind fun _ => throws_ok _).bind fun _ => throws_ok _

mutual

theorem resolveArguments_told : ∀ t : TypeExpr, Told (c.resolveArguments t)
  | .mk _ args _ => by
    unfold resolveArguments
    exact resolveAll_told args

theorem resolveAll_told : ∀ ts : List TypeExpr, Told (c.resolveAll ts)
  | [] => by
    exact throws_ok _
  | t :: ts => by
    unfold resolveAll
    exact (c.resolveGeneric_told _ _).bind fun _ => (resolveArguments_told t).bind fun _ =>
      (resolveAll_told ts).bind fun _ => throws_ok _

end

theorem resolveTyped_told (path : String) (expr : Option TypeExpr) (span : Span) :
    Told (c.resolveTyped path expr span) := by
  refine (c.resolveGeneric_told _ _).bind fun g => ?_
  cases expr with
  | none => exact throws_ok _
  | some t => exact (c.resolveArguments_told t).bind fun _ => throws_ok _

theorem parameter_told (a : NodeAttrs) : Told (c.parameter a) :=
  (c.resolveTyped_told _ _ _).bind fun _ => throws_ok _

theorem candidates_told (name : String) (span : Span) : Told (c.candidates name span) := by
  unfold candidates
  split
  · exact throws_ok _
  · dsimp only
    split
    · exact told_failAt _ _ rfl
    · exact throws_ok _
    · exact told_failAt _ _ rfl

end Context

theorem Model.property_told (m : Model) (t : TypeRef) (name : String) (span : Span) :
    Told (m.property t name span) := by
  unfold property
  split
  · exact throws_ok _
  · exact told_failAt _ _ rfl

theorem Model.member_told (m : Model) (t : TypeRef) (name : String) (arity : Nat) (span : Span) :
    Told (m.member t name arity span) := by
  unfold member
  split
  · exact throws_ok _
  · exact told_failAt _ _ rfl

theorem Literal.compile_told (a : NodeAttrs) : Told (Literal.compile a) := by
  unfold compile
  dsimp only
  split
  · exact told_failAt _ _ rfl
  · exact throws_ok _

theorem Navigation.dated_told (m : Model) (t : TypeRef) (q : QualifiedProperty) (name : String) (receiver : Expr)
    (given : List Expr) (context : Option (Dates Expr)) (span : Span) :
    Told (dated m t q name receiver given context span) := by
  unfold dated
  refine throws_ite ((m.member_told _ _ _ _).bind fun _ => throws_ok _) ?_
  split
  · exact told_failAt _ _ rfl
  · exact (m.member_told _ _ _ _).bind fun _ => throws_ok _

theorem Navigation.enumValue_told (e : Element) (name : String) (enumSpan span : Span) :
    Told (Navigation.enumValue e name enumSpan span) := by
  refine (Context.enumValue_told e _ _).bind fun _ => ?_
  split
  · exact told_failAt _ _ rfl
  · exact throws_ok _

end Names

end ModelGraph
