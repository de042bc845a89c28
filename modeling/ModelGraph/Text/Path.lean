/-
# Qualified names

A path is a list of names joined by `::`. `split` cuts a path at every
separator from the left, `cutLast` at the last one; the two differ on runs of
more than two colons, and both readings are in use (packages are walked with
the first, overloads and short names are found with the second).
-/

namespace ModelGraph
namespace Path

def separator : String := "::"

/-- The path of `name` in the package `pkg`; elements of the root package go by
their bare name. -/
def join (pkg name : String) : String :=
  if pkg = "" then name else pkg ++ separator ++ name

def ofNames (names : List String) : String := separator.intercalate names

/-- Cuts a character list at every `::`, reading from the left. -/
def splitChars : List Char → List (List Char)
  | [] => [[]]
  | ':' :: ':' :: rest => [] :: splitChars rest
  | c :: rest =>
    match splitChars rest with
    | [] => [[c]]
    | s :: ss => (c :: s) :: ss

def split (path : String) : List String :=
  (splitChars path.toList).map String.ofList

def isQualified (path : String) : Bool :=
  (splitChars path.toList).length != 1

/-- The characters before the first `::` of a reversed path, reversed back, and
the reversed rest after it. -/
def cutReversed : List Char → List Char → Option (List Char × List Char)
  | _, [] => none
  | acc, ':' :: ':' :: rest => some (acc, rest)
  | acc, c :: rest => cutReversed (c :: acc) rest

def cutLast (path : String) : Option (String × String) :=
  (cutReversed [] path.toList.reverse).map fun (after, before) =>
    (String.ofList before.reverse, String.ofList after)

def lastSegment (path : String) : String :=
  match cutLast path with
  | some (_, name) => name
  | none => path

/-- A path with `_` for every separator: the identifier of an unnamed mapping. -/
def underscored (path : String) : String :=
  "_".intercalate (split path)

end Path

def endsWithText (text ending : String) : Bool :=
  ending.toList.isSuffixOf text.toList

def withoutEnding (text ending : String) : String :=
  if endsWithText text ending then String.ofList (text.toList.take (text.length - ending.length))
  else text

def distinct [BEq α] : List α → List α
  | [] => []
  | a :: l => a :: (distinct l).filter (· != a)

def hasUnderscore (text : String) : Bool := text.toList.contains '_'

def beforeUnderscore (text : String) : String :=
  String.ofList (text.toList.takeWhile (· != '_'))

end ModelGraph
