/-
# Reading multiplicities

A multiplicity is written between brackets: `[*]`, one number, or two bounds with
two dots between them, the upper of which may be a star. The brackets may be
missing, blanks before a number are passed over, and so is whatever follows one.
-/
import ModelGraph.Multiplicity
import ModelGraph.Text.Blank
import ModelGraph.Text.Quote

namespace ModelGraph
namespace Multiplicity

def withoutBrackets (cs : List Char) : List Char :=
  let cs := match cs with
    | '[' :: rest => rest
    | cs => cs
  match cs.reverse with
  | ']' :: rest => rest.reverse
  | _ => cs

def cutDots : List Char → Option (List Char × List Char)
  | [] => none
  | '.' :: '.' :: rest => some ([], rest)
  | c :: rest => (cutDots rest).map fun (a, b) => (c :: a, b)

/-- The number at the start of a text, after blanks other than line ends. -/
def leadingNumber? (cs : List Char) : Option Int :=
  let cs := cs.dropWhile fun c => isBlank c && c != '\n'
  let (sign, rest) := match cs with
    | '-' :: rest => (['-'], rest)
    | '+' :: rest => ([], rest)
    | rest => ([], rest)
  Number.word? (String.ofList (sign ++ rest.takeWhile Char.isDigit))

def read? (text : String) : Option Multiplicity :=
  let body := withoutBrackets text.toList
  if body = ['*'] then some zeroMany
  else
    let (lower, upper) := (cutDots body).getD (body, body)
    match leadingNumber? lower with
    | none => none
    | some lo =>
      if upper = ['*'] then some (make lo (-1))
      else (leadingNumber? upper).map fun hi => make lo hi

def malformed (text : String) : String := "malformed multiplicity " ++ quoted text

end Multiplicity
end ModelGraph
