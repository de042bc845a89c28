/-
# Failures

A failure ends a build or a look-up. It is a problem with a position, a request
that nothing here supports, or a plain message. Wrapping a failure gives it a
new text and position; that an unsupported request is at the bottom is kept.
-/
import ModelGraph.Span
import ModelGraph.Problem

namespace ModelGraph

/-- The kinds of positioned failures, by number where there is no name. -/
inductive ErrorKind where
  | compilation | reading | schema | input
  | other (number : Int)
  deriving Repr, BEq, DecidableEq, Inhabited

namespace ErrorKind

def ofInt (n : Int) : ErrorKind :=
  if n = 0 then compilation else if n = 1 then reading else if n = 2 then schema
  else if n = 3 then input else other n

def name : ErrorKind → String
  | compilation => "COMPILATION"
  | reading => "PARSER"
  | schema => "SCHEMA"
  | input => "INPUT"
  | other n => s!"errortype({n})"

end ErrorKind

/-- Why a build or a look-up failed. -/
inductive Failure where
  /-- A problem at a position. `unsupported` tells that an unsupported request is
  the reason behind it. -/
  | diagnosed (kind : ErrorKind) (problem : Problem) (span : Span) (unsupported : Bool)
  | unsupported (what : Unsupported)
  | plain (problem : Problem)
  deriving Repr, BEq, DecidableEq

namespace Failure

def of (span : Span) (problem : Problem) : Failure :=
  diagnosed .compilation problem span false

def isUnsupported : Failure → Bool
  | diagnosed _ _ _ u => u
  | unsupported _ => true
  | plain _ => false

def hasSpan : Failure → Bool
  | diagnosed _ _ span _ => span.isKnown
  | _ => false

def message : Failure → String
  | diagnosed _ problem _ _ => problem.message
  | unsupported what => "unsupported operation: " ++ what.message
  | plain problem => problem.message

def render : Failure → String
  | diagnosed kind problem span _ =>
    if span.isKnown then kind.name ++ " error at " ++ span.render ++ ": " ++ problem.message
    else kind.name ++ " error: " ++ problem.message
  | f => f.message

def wrap (f : Failure) (span : Span) (problem : Problem) : Failure :=
  diagnosed .compilation problem span f.isUnsupported

def moveTo (f : Failure) (span : Span) : Failure := f.wrap span (.text f.message)

/-- The failure as seen from an element: one that has neither a position nor an
unsupported request behind it is told with the element's path and position. -/
def anchor (f : Failure) (path : String) (span : Span) : Failure :=
  if f.isUnsupported || f.hasSpan then f else f.wrap span (.inElement path f.message)

end Failure

abbrev Result (α : Type) : Type := Except Failure α

def failAt (span : Span) (problem : Problem) : Result α := .error (.of span problem)

end ModelGraph
