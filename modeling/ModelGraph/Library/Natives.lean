/-
# The functions of the library

Functions that are part of the library, by package. Overloads of a name are tried
in the order in which they stand here.
-/
import ModelGraph.Library.Types
import ModelGraph.Signature

namespace ModelGraph

namespace Native

def signature (n : Native) : Signature :=
  { parameters := n.parameters.map fun p => (p.1.path, p.2)
    resultType := n.resultType.path
    result := n.result }

def elementName (n : Native) : String := n.signature.elementName n.functionName

def namedParameters (n : Native) : List Param :=
  n.parameters.zipIdx.map fun (p, i) =>
    { name := "p" ++ toString i, type := .ofRef p.1, multiplicity := p.2 }

def element (n : Native) (package : String) : Element :=
  { name := n.elementName, path := Path.join package n.elementName, content := .native n }

end Native

namespace Library

def routerPackage : String := "meta::pure::router::operations"

def many (t : TypeRef) : TypeRef × Multiplicity := (t, .zeroMany)
def one (t : TypeRef) : TypeRef × Multiplicity := (t, .one)
def opt (t : TypeRef) : TypeRef × Multiplicity := (t, .zeroOne)
def some1 (t : TypeRef) : TypeRef × Multiplicity := (t, .oneMany)

def plain (name : String) (parameters : List (TypeRef × Multiplicity))
    (result : TypeRef × Multiplicity) : Native :=
  { functionName := name, parameters, resultType := result.1, result := result.2 }

def inferred (name : String) (parameters : List (TypeRef × Multiplicity))
    (result : TypeRef × Multiplicity) (rule : ResultRule) (lambdas : LambdaRule := .untyped) :
    Native :=
  { plain name parameters result with resultRule := rule, lambdaRule := lambdas }

def collectionNatives : List Native :=
  [inferred "filter" [many any, one functionClass] (many any) (.typeOf 0 .zeroMany) (.elementOf 0),
   inferred "map" [many any, one functionClass] (many any) .mapped (.elementOf 0),
   inferred "exists" [many any, one functionClass] (one boolean) .declared (.elementOf 0),
   inferred "forAll" [many any, one functionClass] (one boolean) .declared (.elementOf 0),
   inferred "find" [many any, one functionClass] (opt any) (.typeOf 0 .zeroOne) (.elementOf 0),
   inferred "sortBy" [many any, opt functionClass] (many any) (.typeOf 0 .zeroMany) (.elementOf 0),
   inferred "sort" [many any] (many any) (.typeOf 0 .zeroMany),
   inferred "fold" [many any, one functionClass, many any] (many any) (.sameAs 2) .accumulator,
   plain "size" [many any] (one integer),
   plain "count" [many any] (one integer),
   plain "isEmpty" [many any] (one boolean),
   plain "isNotEmpty" [many any] (one boolean),
   inferred "first" [many any] (opt any) (.typeOf 0 .zeroOne),
   inferred "last" [many any] (opt any) (.typeOf 0 .zeroOne),
   inferred "at" [many any, one integer] (one any) (.typeOf 0 .one),
   inferred "take" [many any, one integer] (many any) (.typeOf 0 .zeroMany),
   inferred "drop" [many any, one integer] (many any) (.typeOf 0 .zeroMany),
   inferred "slice" [many any, one integer, one integer] (many any) (.typeOf 0 .zeroMany),
   inferred "distinct" [many any] (many any) (.typeOf 0 .zeroMany),
   inferred "removeDuplicates" [many any] (many any) (.typeOf 0 .zeroMany),
   inferred "reverse" [many any] (many any) (.typeOf 0 .zeroMany),
   inferred "concatenate" [many any, many any] (many any) .concatenated,
   inferred "union" [many any, many any] (many any) .concatenated,
   inferred "add" [many any, one any] (some1 any) (.typeOf 0 .oneMany),
   plain "contains" [many any, one any] (one boolean),
   plain "in" [opt any, many any] (one boolean),
   plain "range" [one integer, one integer] (many integer),
   inferred "getAll" [one classClass] (many any) (.typeArgumentOf 0 .zeroMany),
   inferred "getAll" [one classClass, one date] (many any) (.typeArgumentOf 0 .zeroMany),
   inferred "getAll" [one classClass, one date, one date] (many any) (.typeArgumentOf 0 .zeroMany),
   inferred "getAllVersions" [one classClass] (many any) (.typeArgumentOf 0 .zeroMany),
   inferred "getAllVersionsInRange" [one classClass, one date, one date] (many any)
     (.typeArgumentOf 0 .zeroMany)]

def booleanNatives : List Native :=
  [plain "and" [one boolean, one boolean] (one boolean),
   plain "or" [one boolean, one boolean] (one boolean),
   plain "not" [one boolean] (one boolean),
   plain "equal" [many any, many any] (one boolean),
   plain "eq" [one any, one any] (one boolean),
   plain "is" [one any, one any] (one boolean),
   plain "isTrue" [opt boolean] (one boolean),
   plain "isFalse" [opt boolean] (one boolean),
   plain "greaterThan" [opt number, opt number] (one boolean),
   plain "greaterThan" [opt date, opt date] (one boolean),
   plain "greaterThan" [opt string, opt string] (one boolean),
   plain "greaterThan" [opt boolean, opt boolean] (one boolean),
   plain "greaterThanEqual" [opt number, opt number] (one boolean),
   plain "greaterThanEqual" [opt date, opt date] (one boolean),
   plain "greaterThanEqual" [opt string, opt string] (one boolean),
   plain "lessThan" [opt number, opt number] (one boolean),
   plain "lessThan" [opt date, opt date] (one boolean),
   plain "lessThan" [opt string, opt string] (one boolean),
   plain "lessThanEqual" [opt number, opt number] (one boolean),
   plain "lessThanEqual" [opt date, opt date] (one boolean),
   plain "lessThanEqual" [opt string, opt string] (one boolean)]

def mathNatives : List Native :=
  [plain "plus" [many integer] (one integer),
   plain "plus" [many float] (one float),
   plain "plus" [many decimal] (one decimal),
   plain "plus" [many number] (one number),
   plain "minus" [many integer] (one integer),
   plain "minus" [many float] (one float),
   plain "minus" [many decimal] (one decimal),
   plain "minus" [many number] (one number),
   plain "times" [many integer] (one integer),
   plain "times" [many float] (one float),
   plain "times" [many decimal] (one decimal),
   plain "times" [many number] (one number),
   plain "divide" [one number, one number] (one float),
   plain "abs" [one integer] (one integer),
   plain "abs" [one float] (one float),
   plain "abs" [one number] (one number),
   plain "round" [one number] (one integer),
   plain "floor" [one number] (one integer),
   plain "ceiling" [one number] (one integer),
   plain "sqrt" [one number] (one float),
   plain "pow" [one number, one number] (one number),
   plain "mod" [one integer, one integer] (one integer),
   plain "rem" [one number, one number] (one number),
   plain "max" [many integer] (opt integer),
   plain "max" [many float] (opt float),
   plain "max" [many number] (opt number),
   plain "min" [many integer] (opt integer),
   plain "min" [many float] (opt float),
   plain "min" [many number] (opt number),
   plain "sum" [many integer] (one integer),
   plain "sum" [many float] (one float),
   plain "sum" [many number] (one number),
   plain "average" [many number] (one float)]

def stringNatives : List Native :=
  [plain "plus" [many string] (one string),
   plain "joinStrings" [many string] (one string),
   plain "joinStrings" [many string, one string] (one string),
   plain "joinStrings" [many string, one string, one string, one string] (one string),
   plain "length" [one string] (one integer),
   plain "toUpper" [one string] (one string),
   plain "toLower" [one string] (one string),
   plain "trim" [one string] (one string),
   plain "startsWith" [one string, one string] (one boolean),
   plain "endsWith" [one string, one string] (one boolean),
   plain "substring" [one string, one integer] (one string),
   plain "substring" [one string, one integer, one integer] (one string),
   plain "indexOf" [one string, one string] (one integer),
   plain "replace" [one string, one string, one string] (one string),
   plain "split" [one string, one string] (many string),
   plain "format" [one string, many any] (one string),
   plain "toString" [one any] (one string),
   plain "parseInteger" [one string] (one integer),
   plain "parseFloat" [one string] (one float),
   plain "parseBoolean" [one string] (one boolean),
   plain "parseDate" [one string] (one date)]

def dateNatives : List Native :=
  [plain "now" [] (one dateTime),
   plain "today" [] (one strictDate),
   plain "date" [one integer, one integer, one integer] (one strictDate),
   plain "datePart" [one date] (one date),
   plain "adjust" [one date, one integer, one durationUnit] (one date),
   plain "dateDiff" [one date, one date, one durationUnit] (one integer),
   plain "year" [one date] (one integer),
   plain "monthNumber" [one date] (one integer),
   plain "dayOfMonth" [one date] (one integer),
   plain "hour" [one date] (one integer),
   plain "minute" [one date] (one integer),
   plain "second" [one date] (one integer),
   plain "firstDayOfMonth" [one date] (one date)]

def langNatives : List Native :=
  [inferred "if" [one boolean, one functionClass, one functionClass] (many any) .branches,
   inferred "letFunction" [one string, many any] (many any) (.sameAs 1),
   inferred "cast" [many any, one any] (many any) (.castTo 1),
   inferred "eval" [one functionClass] (many any) (.lambdaResult 0),
   inferred "eval" [one functionClass, many any] (many any) (.lambdaResult 0) .applied,
   inferred "new" [one classClass] (one any) (.typeArgumentOf 0 .one),
   inferred "new" [one classClass, one string] (one any) (.typeArgumentOf 0 .one),
   inferred "subType" [many any, one any] (many any) (.castTo 1),
   inferred "extractEnumValue" [one enumerationClass, one string] (one any) (.typeArgumentOf 0
     .one)]

def metaNatives : List Native :=
  [plain "instanceOf" [one any, one typeClass] (one boolean),
   plain "id" [one any] (one string)]

def multiplicityNatives : List Native :=
  [inferred "toOne" [many any] (one any) (.typeOf 0 .one),
   inferred "toOneMany" [many any] (some1 any) (.typeOf 0 .oneMany)]

def fetchNatives : List Native :=
  [inferred "graphFetch" [many any, one rootTreeClass] (many any) (.typeOf 0 .zeroMany),
   inferred "graphFetchChecked" [many any, one rootTreeClass] (many any) (.typeOf 0 .zeroMany),
   plain "serialize" [many any, one rootTreeClass] (one string)]

def routerNatives : List Native :=
  [plain "special_union" [one operationSetClass] (many setClass),
   plain "union" [one operationSetClass] (many setClass),
   plain "inheritance" [one operationSetClass] (many setClass),
   plain "merge" [one operationSetClass] (many setClass)]

def nativeGroups : List (String × List Native) :=
  [("meta::pure::functions::collection", collectionNatives),
   ("meta::pure::functions::boolean", booleanNatives),
   ("meta::pure::functions::math", mathNatives),
   ("meta::pure::functions::string", stringNatives),
   (datePackage, dateNatives),
   ("meta::pure::functions::lang", langNatives),
   ("meta::pure::functions::meta", metaNatives),
   ("meta::pure::functions::multiplicity", multiplicityNatives),
   ("meta::pure::graphFetch::execution", fetchNatives),
   (routerPackage, routerNatives)]

def nativesCalled (name : String) : List (String × Native) :=
  nativeGroups.flatMap fun g =>
    (g.2.filter fun n => n.functionName = name).map fun n => (g.1, n)

end Library
end ModelGraph
