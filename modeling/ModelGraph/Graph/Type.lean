/-
# Types

A raw type is an element that is a type, or a function type. Elements are the
same type if they have the same path; a function type is the same only as
itself, which its serial number tells among those of one compilation. A generic
type is a raw type with type arguments.
-/
import ModelGraph.Multiplicity

namespace ModelGraph

inductive TypeKind where
  | classType | enumeration | measure | unit | primitive
  deriving Repr, BEq, DecidableEq, Inhabited

/-- A reference to a type by its path, with its kind and its own name. -/
structure TypeRef where
  kind : TypeKind
  path : String
  name : String
  deriving Repr, BEq, DecidableEq, Inhabited

mutual

inductive RawType where
  | named (ref : TypeRef)
  | function (serial : Nat) (parameters : List (GenericType × Multiplicity))
      (result : GenericType) (multiplicity : Multiplicity)

inductive GenericType where
  | mk (raw : RawType) (args : List GenericType)

end

deriving instance Repr, BEq for RawType, GenericType

namespace RawType

def path : RawType → String
  | named ref => ref.path
  | function .. => ""

def name : RawType → String
  | named ref => ref.name
  | function .. => ""

def class? : RawType → Option TypeRef
  | named ref => if ref.kind = .classType then some ref else none
  | function .. => none

def same : RawType → RawType → Bool
  | named a, named b => a.path = b.path
  | function m _ _ _, function n _ _ _ => m = n
  | _, _ => false

end RawType

namespace GenericType

def raw : GenericType → RawType
  | mk r _ => r

def args : GenericType → List GenericType
  | mk _ as => as

def ofRaw (r : RawType) : GenericType := mk r []

def ofRef (ref : TypeRef) : GenericType := mk (.named ref) []

instance : Inhabited GenericType := ⟨ofRef default⟩

end GenericType

mutual

def GenericType.nextSerial : GenericType → Nat
  | .mk raw args => max raw.nextSerial (nextSerials args)

def nextSerials : List GenericType → Nat
  | [] => 0
  | g :: gs => max g.nextSerial (nextSerials gs)

def RawType.nextSerial : RawType → Nat
  | .named _ => 0
  | .function serial parameters result _ =>
    max (serial + 1) (max (parameterSerials parameters) result.nextSerial)

def parameterSerials : List (GenericType × Multiplicity) → Nat
  | [] => 0
  | (g, _) :: ps => max g.nextSerial (parameterSerials ps)

end

mutual

def renderGeneric (full : Bool) : GenericType → String
  | .mk raw args =>
    renderRaw full raw ++
      (if args.isEmpty then "" else "<" ++ ", ".intercalate (renderGenerics full args) ++ ">")

def renderGenerics (full : Bool) : List GenericType → List String
  | [] => []
  | g :: gs => renderGeneric full g :: renderGenerics full gs

def renderRaw (full : Bool) : RawType → String
  | .named ref => if full then ref.path else ref.name
  | .function _ parameters result multiplicity =>
    "\x7b" ++ ", ".intercalate (renderParameters full parameters) ++ "->" ++
      renderGeneric full result ++ multiplicity.render ++ "\x7d"

def renderParameters (full : Bool) : List (GenericType × Multiplicity) → List String
  | [] => []
  | (g, m) :: ps => (renderGeneric full g ++ m.render) :: renderParameters full ps

end

def GenericType.render (g : GenericType) : String := renderGeneric true g

def GenericType.renderShort (g : GenericType) : String := renderGeneric false g

def RawType.render (r : RawType) : String := renderRaw true r

/-- A typed name: a parameter, or a variable in scope. -/
structure Param where
  name : String
  type : GenericType
  multiplicity : Multiplicity
  span : Span := {}
  deriving Repr, BEq, Inhabited

/-- The signature behind a type: that of a function type, or of the first type
argument that is one. -/
def GenericType.functionSignature? (g : GenericType) :
    Option (List (GenericType × Multiplicity) × GenericType × Multiplicity) :=
  match g.raw with
  | .function _ ps r m => some (ps, r, m)
  | .named _ =>
    g.args.findSome? fun a =>
      match a.raw with
      | .function _ ps r m => some (ps, r, m)
      | .named _ => none

end ModelGraph
