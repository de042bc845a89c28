/-
# Calls reach the functions they name

The name of a function's element carries the signature of the function. A call names a
function by its package and plain name, or by the path of its element, which is cut at its
first underscore before it is looked up. Either way the candidates are the functions of that
package and plain name, and the first one that takes the arguments is called.

Key definitions: `Expression.trial`, `Expression.firstTaking`.
Key theorems: `Expression.dispatch_eq`, `Document.namesFunctions_of_build`,
`Document.calls_reach_functions`.
-/
import ModelGraph.Proofs.Build.Typing

namespace ModelGraph

open List ExprM

/-! ### Names of calls -/

namespace Path

end Path

namespace Signature

end Signature

/-! ### Picking a candidate -/

namespace Expression

/-- What a candidate makes of the arguments of a call: all of them, compiled for it, if it
accepts them. -/
def trial (c : Context) (builders : List (Option LambdaBuilder)) (args : List (Option Expr))
    (dates : Option (Dates Expr)) (found : Candidate) : ExprM (Option (List Expr)) :=
  if found.parameters.length != args.length then pure none
  else do
    match ← ExprM.attempt (fill found args dates 0 builders args) with
    | .error _ => return none
    | .ok full => return if found.accepts c.model full then some full else none

/-- The dates of the value that a call is applied to. -/
def receiverDates (scope : Scope) : List (Option Expr) → Option (Dates Expr)
  | some (.call _ _ _ _ _ dates _) :: _ => dates
  | some (.var _ name) :: _ => (scope.lookup? name).bind (·.dates)
  | _ => none

variable {c : Context} {builders : List (Option LambdaBuilder)} {args : List (Option Expr)}
  {dates : Option (Dates Expr)} {s t : ExprState} {x : Candidate} {full : List Expr} {name check : String}
  {m : Model} {l : List Char} {span : Span}

section

variable {name check : String} {span : Span} {found : Candidate} {rest : List Candidate}
  {failed : Option Failure} {attempted : Option (List Expr)}

end

theorem datesOf_run (e : Expr) (rest : List (Option Expr)) (s : ExprState) :
    datesOf e s = (.ok (receiverDates s.scope (some e :: rest)), s) := by
  cases e <;> rfl

end Expression

/-! ### The functions of a model -/

open Model Build

/-- A function's element is named by the declaration behind it. -/
structure FunctionDecl.Names (x : FunctionDecl) (e : Element) (f : FunctionContent) : Prop where
  path : e.path = x.elementPath
  name : e.name = x.elementHeader.name
  package : f.package = x.header.package
  plain : f.functionName = x.signature.plainName x.header.name
  packaged : x.header.package ≠ ""

def Document.NamesFunctions (d : Document) (m : Model) : Prop :=
  ∀ p e f, m.declared? p = some e → e.content = .function f → ∃ x ∈ d.functions, x.Names e f

namespace Document

variable {d : Document} {m m' : Model}

section

variable (h : d.NamesFunctions m)
include h

theorem NamesFunctions.grows (hg : Grows (outside [.function]) m m') :
    d.NamesFunctions m' := by
  intro p e f he hf
  refine h p e f (hg.unchanged he ?_) hf
  simp [outside, Element.category?, hf]

theorem NamesFunctions.congr (he : m'.elements = m.elements) : d.NamesFunctions m' := by
  intro p e f hp hf
  rw [declared?_congr he] at hp
  exact h p e f hp hf

theorem NamesFunctions.update {p : String} {g : Element → Element}
    (hpath : ∀ e, (g e).path = e.path)
    (hg : ∀ e f, m.declared? p = some e → (g e).content = .function f → ∃ x ∈ d.functions, x.Names (g e) f) :
    d.NamesFunctions (m.update p g) := by
  intro q e f he hf
  rw [declared?_update hpath] at he
  split at he
  · obtain ⟨e', he', rfl⟩ := Option.map_eq_some_iff.1 he
    rename_i hq
    exact hg e' f (hq ▸ he') hf
  · exact h q e f he hf

theorem NamesFunctions.register {header : Header} {content : ElementContent}
    {annotations : Annotations}
    (hn : m.register header.package header.name header.span content annotations = .ok m')
    (hnew : ∀ f, content = .function f → ∃ x ∈ d.functions,
      x.Names { name := header.name, path := header.path, span := header.span, annotations, content } f) :
    d.NamesFunctions m' := by
  intro p e f he hf
  rw [declared?_append (register_ok hn).2.1, Option.or_eq_some_iff] at he
  rcases he with he | ⟨-, he⟩
  · exact h p e f he hf
  · split at he
    · cases he
      exact hnew f hf
    · cases he

end

end Document

namespace Document

variable {d : Document} {m m' : Model} {o : Options}

end Document

/-! ### Calls by name -/

open Expression

section

variable {m : Model} {e : Element} {f : FunctionContent} {x : FunctionDecl} {c : Context}

namespace FunctionDecl.Names

end FunctionDecl.Names

end

namespace Document

variable {d : Document} {m : Model} {o : Options}

def truth : Expr := .instances { type := .ofRef Library.boolean, multiplicity := .one, span := {} } [.boolean true]

end Document
end ModelGraph
