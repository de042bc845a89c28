/-
# Compiled expressions

Every expression has a type, a multiplicity and a position. A call names what it
applies; a navigation into dated classes carries the dates that hold after it.
-/
import ModelGraph.Graph.Type
import ModelGraph.Temporal

namespace ModelGraph

inductive Callee where
  | property (owner name : String)
  /-- A derived property; the arity leaves the receiver out. -/
  | qualified (owner name : String) (arity : Nat)
  | function (path : String)
  deriving Repr, BEq, DecidableEq, Inhabited

def Callee.render : Callee → String
  | property owner name => "property " ++ owner ++ "." ++ name
  | qualified owner name arity => "qualified " ++ owner ++ "." ++ name ++ "/" ++ toString arity
  | function path => "function " ++ path

/-- Type, multiplicity and position of an expression. -/
structure ExprInfo where
  type : GenericType
  multiplicity : Multiplicity
  span : Span := {}
  deriving Repr, BEq, Inhabited

mutual

inductive Expr where
  | instances (info : ExprInfo) (values : List Value)
  | var (info : ExprInfo) (name : String)
  /-- The application of a function or property. `property` is empty for
  functions; `original` keeps the arguments as given where dates were added. -/
  | call (info : ExprInfo) (name : String) (callee : Callee) (args : List Expr)
      (property : String) (dates : Option (Dates Expr)) (original : List Expr)
  /-- A lambda with the names that it takes from outside. -/
  | lambda (info : ExprInfo) (parameters : List Param) (body : List Expr) (captured : List String)

inductive Value where
  | text (value : String)
  | boolean (value : Bool)
  | integer (value : Int)
  | float (bits : UInt64)
  | enumValue (enumeration name : String)
  | element (path : String)
  | tree (tree : FetchTree)
  | expr (expr : Expr)

inductive FetchTree where
  | mk (className : String) (span : Span) (branches : List FetchBranch)

/-- A branch of a graph fetch tree: one property, maybe narrowed to a subtype. -/
inductive FetchBranch where
  | mk (callee : Callee) (info : ExprInfo) (args : List Expr) (aliasName : String)
      (subType : Option String) (branches : List FetchBranch)

end

deriving instance Repr for Expr, Value, FetchTree, FetchBranch

instance : Inhabited Expr := ⟨.var default ""⟩

namespace Expr

def info : Expr → ExprInfo
  | instances i _ => i
  | var i _ => i
  | call i _ _ _ _ _ _ => i
  | lambda i _ _ _ => i

def type (e : Expr) : GenericType := e.info.type

def raw (e : Expr) : RawType := e.type.raw

def multiplicity (e : Expr) : Multiplicity := e.info.multiplicity

def span (e : Expr) : Span := e.info.span

def lastOfBody? : Expr → Option Expr
  | lambda _ _ body _ => body.getLast?
  | _ => none

def lambdaBody : Expr → List Expr
  | lambda _ _ body _ => body
  | _ => []

mutual

/-- The calls of functions of a name in an expression, those in lambdas included, each
before those in its arguments. -/
def callsOf (name : String) : Expr → List Expr
  | instances _ values => callsOfValues name values
  | var _ _ => []
  | call i n callee args property dates original =>
    (if property = "" && n = name then [call i n callee args property dates original] else []) ++
      callsOfAll name args
  | lambda _ _ body _ => callsOfAll name body

def callsOfAll (name : String) : List Expr → List Expr
  | [] => []
  | e :: es => callsOf name e ++ callsOfAll name es

def callsOfValues (name : String) : List Value → List Expr
  | [] => []
  | .expr e :: vs => callsOf name e ++ callsOfValues name vs
  | _ :: vs => callsOfValues name vs

end

def constant (type : GenericType) (span : Span) (value : Value) : Expr :=
  instances { type, multiplicity := .one, span } [value]

end Expr
end ModelGraph
