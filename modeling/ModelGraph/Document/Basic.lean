/-
# Parts of declarations

The pieces that declarations of every kind share: the header with package and
name, bounds, type expressions, pointers to elements, and annotations. Each
comes with its decoder.
-/
import ModelGraph.Span
import ModelGraph.Text.Path

namespace ModelGraph

open Decode (Decoded Slot)

/-- Package, name and position of a declared element. -/
structure Header where
  package : String := ""
  name : String := ""
  span : Span := {}
  deriving Repr, BEq, DecidableEq, Inhabited

namespace Header

def path (h : Header) : String := Path.join h.package h.name

def fields (get : α → Header) (put : Header → α → α) : List (Slot α) :=
  [.text "package" fun v a => put { get a with package := v } a,
   .text "name" fun v a => put { get a with name := v } a,
   .field "sourceInformation" Span.decoder fun v a => put { get a with span := v } a]

def decoder : Decoder Header := .record (fields id fun v _ => v) {}

end Header

def Span.field (name : String) (put : Span → α → α) : Slot α := .field name Span.decoder put

/-- How many values are admitted, as a document states it; no upper bound means
any number. -/
structure Bounds where
  lower : Int := 0
  upper : Option Int := none
  deriving Repr, BEq, DecidableEq, Inhabited

namespace Bounds

def fields : List (Slot Bounds) :=
  [.integer "lowerBound" fun v b => { b with lower := v },
   .optional "upperBound" .integer fun v b => { b with upper := v }]

def decoder : Decoder Bounds := .record fields {}

def encode (b : Bounds) : Json :=
  .ofObject (("lowerBound", .ofInt b.lower) ::
    match b.upper with
    | some n => [("upperBound", .ofInt n)]
    | none => [])

end Bounds

structure RawTypeExpr where
  tag : String := ""
  path : String := ""
  span : Span := {}
  deriving Repr, BEq, DecidableEq, Inhabited

namespace RawTypeExpr

def fields : List (Slot RawTypeExpr) :=
  [.text "_type" fun v t => { t with tag := v },
   .text "fullPath" fun v t => { t with path := v },
   Span.field "sourceInformation" fun v t => { t with span := v }]

def decoder : Decoder RawTypeExpr := .record fields {}

def encode (t : RawTypeExpr) : Json :=
  .ofObject ((if t.tag = "" then [] else [("_type", .ofString t.tag)]) ++
    [("fullPath", .ofString t.path), ("sourceInformation", t.span.encode)])

end RawTypeExpr

inductive TypeExpr where
  | mk (raw : RawTypeExpr) (args : List TypeExpr) (span : Span)
  deriving Repr, BEq, Inhabited

namespace TypeExpr

def empty : TypeExpr := .mk {} [] {}

def raw : TypeExpr → RawTypeExpr
  | mk r _ _ => r

def args : TypeExpr → List TypeExpr
  | mk _ as _ => as

def span : TypeExpr → Span
  | mk _ _ s => s

def fields (args : Decoder TypeExpr) : List (Slot TypeExpr) :=
  [.field "rawType" RawTypeExpr.decoder fun v t => mk v t.args t.span,
   .list "typeArguments" args fun v t => mk t.raw v t.span,
   Span.field "sourceInformation" fun v t => mk t.raw t.args v]

def decoderTo : (depth : Nat) → Decoder TypeExpr
  | 0 => .record [] empty
  | depth + 1 => .record (fields (decoderTo depth)) empty

def decoder : Decoder TypeExpr := .nested decoderTo

mutual

def encode : TypeExpr → Json
  | mk raw args span =>
    .ofObject ([("rawType", raw.encode)] ++
      (if args.isEmpty then [] else [("typeArguments", .ofArray (encodeAll args))]) ++
      [("sourceInformation", span.encode)])

def encodeAll : List TypeExpr → List Json
  | [] => []
  | t :: ts => encode t :: encodeAll ts

end

/-- The path that a declaration names as its type: that of the type expression
if there is one, or else the plain name. -/
def pathOr (t : Option TypeExpr) (plain : String) : String :=
  match t with
  | some t => if t.raw.path = "" then plain else t.raw.path
  | none => plain

end TypeExpr

structure Pointer where
  kind : String := ""
  path : String := ""
  span : Span := {}
  deriving Repr, BEq, DecidableEq, Inhabited

namespace Pointer

def fields : List (Slot Pointer) :=
  [.text "type" fun v p => { p with kind := v },
   .text "path" fun v p => { p with path := v },
   Span.field "sourceInformation" fun v p => { p with span := v }]

def decoder : Decoder Pointer := .textOr (fun path => { path }) (.record fields {})

end Pointer

structure ProfileRef where
  profile : String := ""
  value : String := ""
  profileSpan : Span := {}
  span : Span := {}
  deriving Repr, BEq, DecidableEq, Inhabited

namespace ProfileRef

def fields : List (Slot ProfileRef) :=
  [.text "profile" fun v r => { r with profile := v },
   .text "value" fun v r => { r with value := v },
   Span.field "profileSourceInformation" fun v r => { r with profileSpan := v },
   Span.field "sourceInformation" fun v r => { r with span := v }]

def decoder : Decoder ProfileRef := .record fields {}

end ProfileRef

structure TaggedText where
  tag : ProfileRef := {}
  value : String := ""
  span : Span := {}
  deriving Repr, BEq, DecidableEq, Inhabited

namespace TaggedText

def fields : List (Slot TaggedText) :=
  [.field "tag" ProfileRef.decoder fun v t => { t with tag := v },
   .text "value" fun v t => { t with value := v },
   Span.field "sourceInformation" fun v t => { t with span := v }]

def decoder : Decoder TaggedText := .record fields {}

end TaggedText

/-- The stereotypes and tagged texts of a construct. -/
structure AnnotationDecls where
  stereotypes : List ProfileRef := []
  taggedTexts : List TaggedText := []
  deriving Repr, BEq, DecidableEq, Inhabited

namespace AnnotationDecls

def fields (get : α → AnnotationDecls) (put : AnnotationDecls → α → α) : List (Slot α) :=
  [.list "stereotypes" ProfileRef.decoder fun v a => put { get a with stereotypes := v } a,
   .list "taggedValues" TaggedText.decoder fun v a => put { get a with taggedTexts := v } a]

def decoder : Decoder AnnotationDecls := .record (fields id fun v _ => v) {}

end AnnotationDecls
end ModelGraph
