/-
# Patterns for names

In a pattern `?` stands for a character and `*` for any number of them, a class in
brackets for one of its characters, and braces list alternatives. A backslash takes the
next character as it is.

A name is tried from left to right. Where it does not fit, the last star takes one
character more, and the trial goes on from there. A class or a brace that does not end is
noticed only when the trial comes to it.
-/

namespace ModelGraph
namespace Glob

inductive Fault where
  | malformed
  deriving Repr, BEq, DecidableEq, Inhabited

def Fault.message : Fault → String
  | malformed => "syntax error in pattern"

def isMeta (c : Char) : Bool := c = '*' || c = '?' || c = '[' || c = '{'

def isPattern (text : String) : Bool := text.toList.any isMeta

/-- The inside of a class, its mark of negation aside; with it whether it is negated. -/
def classBody : List Char → Bool × List Char
  | '!' :: cs => (true, cs)
  | '^' :: cs => (true, cs)
  | cs => (false, cs)

def afterClass? : List Char → Option (List Char)
  | [] => none
  | '\\' :: _ :: cs => afterClass? cs
  | ']' :: cs => some cs
  | _ :: cs => afterClass? cs

/-- Whether classes and alternatives are closed and no class is empty. `depth` is the
number of open alternatives; the fuel is the number of characters. -/
def validFrom : (fuel : Nat) → (depth : Nat) → List Char → Bool
  | _, depth, [] => depth = 0
  | 0, _, _ => false
  | fuel + 1, depth, '\\' :: cs =>
    match cs with
    | [] => false
    | _ :: cs => validFrom fuel depth cs
  | fuel + 1, depth, '[' :: cs =>
    match (classBody cs).2 with
    | [] => false
    | ']' :: _ => false
    | body =>
      match afterClass? body with
      | some cs => validFrom fuel depth cs
      | none => false
  | fuel + 1, depth, '{' :: cs => validFrom fuel (depth + 1) cs
  | fuel + 1, depth, '}' :: cs => if depth = 0 then false else validFrom fuel (depth - 1) cs
  | fuel + 1, depth, _ :: cs => validFrom fuel depth cs

def isValid (text : String) : Bool := validFrom text.length 0 text.toList

/-- Looks for a character in a class: whether it is there, and what is left of the
pattern. `last` is the character before, from which a range may go on. -/
def scanClass (c : Char) : (last : Option Char) → List Char → Bool × List Char
  | _, [] => (false, [])
  | some low, '-' :: '\\' :: high :: rest =>
    if low ≤ c && c ≤ high then (true, rest) else scanClass c none rest
  | _, '\\' :: d :: rest => if d = c then (true, rest) else scanClass c (some d) rest
  | last, d :: rest =>
    if d = ']' then (false, d :: rest)
    else
      match last, rest with
      | some low, high :: rest' =>
        if d = '-' && high != ']' then
          if low ≤ c && c ≤ high then (true, rest') else scanClass c none rest'
        else if d = c then (true, high :: rest') else scanClass c (some d) (high :: rest')
      | _, rest => if d = c then (true, rest) else scanClass c (some d) rest

/-- Tries a character against the class that a pattern goes on with: what is left of the
pattern if it fits. -/
def tryClass (c : Char) (pattern : List Char) : Except Fault (Option (List Char)) :=
  let (negated, body) := classBody pattern
  match body with
  | [] => .error .malformed
  | ']' :: _ => .error .malformed
  | body =>
    let (found, rest) := scanClass c none body
    if found = negated then
      if rest.isEmpty then .error .malformed else .ok none
    else
      match afterClass? rest with
      | some after => .ok (some after)
      | none => .error .malformed

/-- What stands before and after the brace that closes. `depth` counts braces that are
open inside; `before` is reversed. -/
def closeBrace? : (depth : Nat) → (before : List Char) → List Char →
    Option (List Char × List Char)
  | _, _, [] => none
  | depth, before, '\\' :: c :: cs => closeBrace? depth (c :: '\\' :: before) cs
  | 0, before, '}' :: cs => some (before.reverse, cs)
  | depth + 1, before, '}' :: cs => closeBrace? depth ('}' :: before) cs
  | depth, before, '{' :: cs => closeBrace? (depth + 1) ('{' :: before) cs
  | depth, before, c :: cs => closeBrace? depth (c :: before) cs

/-- The alternatives between braces. `current` is the one at hand, reversed. -/
def choices : (depth : Nat) → (current : List Char) → List Char → List (List Char)
  | _, current, [] => [current.reverse]
  | depth, current, '\\' :: c :: cs => choices depth (c :: '\\' :: current) cs
  | depth, current, '{' :: cs => choices (depth + 1) ('{' :: current) cs
  | depth, current, '}' :: cs => choices (depth - 1) ('}' :: current) cs
  | 0, current, ',' :: cs => current.reverse :: choices 0 [] cs
  | depth, current, c :: cs => choices depth (c :: current) cs

def firstOf (trials : List (Unit → Except Fault Bool)) : Except Fault Bool :=
  match trials with
  | [] => .ok false
  | trial :: rest =>
    match trial () with
    | .ok false => firstOf rest
    | result => result

def fitsNothing : (fuel : Nat) → List Char → Except Fault Bool
  | 0, _ => .ok false
  | _, [] => .ok true
  | _, ['*'] => .ok true
  | _, ['*', '*'] => .ok true
  | fuel + 1, '{' :: cs =>
    match closeBrace? 0 [] cs with
    | none => .error .malformed
    | some (inside, after) =>
      firstOf ((choices 0 [] inside).map fun choice _ => fitsNothing fuel (choice ++ after))
  | _, _ => .ok false

/-- Whether a name fits a pattern from the character number `i` on. `star` says where the
pattern goes on after the last star, and what is left of the name there. -/
def fitsFrom : (fuel : Nat) → (pattern : List Char) → (i : Nat) → (name : List Char) →
    (star : Option (Nat × List Char)) → Except Fault Bool
  | 0, _, _, _, _ => .ok false
  | fuel + 1, pattern, i, [], _ => fitsNothing (fuel + 1) (pattern.drop i)
  | fuel + 1, pattern, i, c :: cs, star =>
    let retry := fun (_ : Unit) =>
      match star with
      | some (k, _ :: rest) => fitsFrom fuel pattern k rest (some (k, rest))
      | _ => .ok false
    match pattern.drop i with
    | [] => retry ()
    | '*' :: '*' :: _ => fitsFrom fuel pattern (i + 2) (c :: cs) (some (i + 2, c :: cs))
    | '*' :: _ => fitsFrom fuel pattern (i + 1) (c :: cs) (some (i + 1, c :: cs))
    | '?' :: _ => fitsFrom fuel pattern (i + 1) cs star
    | '[' :: ps =>
      match tryClass c ps with
      | .error fault => .error fault
      | .ok none => retry ()
      | .ok (some rest) => fitsFrom fuel pattern (pattern.length - rest.length) cs star
    | '{' :: ps =>
      match closeBrace? 0 [] ps with
      | none => .error .malformed
      | some (inside, after) =>
        firstOf ((choices 0 [] inside).map fun choice _ =>
          fitsFrom fuel (pattern.take i ++ choice ++ after) i (c :: cs) star)
    | ['\\'] => .error .malformed
    | '\\' :: p :: _ => if p = c then fitsFrom fuel pattern (i + 2) cs star else retry ()
    | p :: _ => if p = c then fitsFrom fuel pattern (i + 1) cs star else retry ()

/-- Whether a name fits a pattern. Every star takes a character more at most as often as
the name has characters, and between two such steps the pattern is gone through once at
most. -/
def fits (pattern : List Char) (name : String) : Except Fault Bool :=
  fitsFrom ((pattern.length + 2) * (pattern.length + 2) * (name.length + 2)) pattern 0
    name.toList none

/-- Takes the backslash off characters that mean something in patterns. -/
def unescape : List Char → List Char
  | '\\' :: c :: cs =>
    if isMeta c || c = ']' || c = '}' then c :: unescape cs else '\\' :: unescape (c :: cs)
  | c :: cs => c :: unescape cs
  | [] => []

/-- Where the first character is that makes a text a pattern. `i` is the number of the
first character. -/
def firstMeta? : (i : Nat) → List Char → Option Nat
  | _, [] => none
  | i, '\\' :: _ :: cs => firstMeta? (i + 2) cs
  | i, c :: cs => if isMeta c then some i else firstMeta? (i + 1) cs

def last? (isKind : Char → Bool) (cs : List Char) : Option Nat :=
  (cs.zip ('/' :: cs)).zipIdx.foldl
    (fun found x => if isKind x.1.1 && x.1.2 != '\\' then some x.2 else found) none

/-- Where the brace opens that is closed after the text; the text is given from its end,
each character with the one before it, and `depth` counts the braces closed inside. -/
def openBraceFrom? : (depth : Nat) → List (Char × Char) → Option Nat
  | _, [] => none
  | depth, (c, before) :: rest =>
    if c = '}' && before != '\\' then openBraceFrom? (depth + 1) rest
    else if c = '{' && before != '\\' then
      match depth with
      | 0 => some rest.length
      | depth + 1 => openBraceFrom? depth rest
    else openBraceFrom? depth rest

def openBrace? (cs : List Char) : Option Nat := openBraceFrom? 0 (cs.zip ('/' :: cs)).reverse

/-- How a pattern for paths is taken apart: into alternatives, or into a pattern for
folders and a pattern for the names in them. -/
inductive Cut where
  /-- Text before the braces that open at the given place, and the place of their end. -/
  | braces (start stop : Nat)
  | names (folder : Option (List Char)) (folderIsPlain : Bool) (name : List Char)
  deriving Repr, BEq, DecidableEq, Inhabited

def cutAt (pattern : List Char) (place : Option Nat) : Cut :=
  match place with
  | none => .names none true pattern
  | some k => .names (some (pattern.take k)) (firstMeta? 0 (pattern.take k)).isNone
      (pattern.drop (k + 1))

/-- Takes a pattern apart at its last separator or closing brace. A brace that opens
nowhere is a character like others. -/
def cut (pattern : List Char) : Cut :=
  match last? (fun c => c = '/' || c = '}') pattern with
  | none => cutAt pattern none
  | some k =>
    if pattern[k]? = some '}' then
      match openBrace? (pattern.take k) with
      | some start => .braces start k
      | none => cutAt pattern (last? (· = '/') (pattern.take k))
    else cutAt pattern (some k)

/-- The alternatives that count, an empty one at the end being none. -/
def listed (inside : List Char) : List (List Char) :=
  let all := choices 0 [] inside
  if all.getLast? = some [] then all.dropLast else all

/-- The folder before the first part that is not plain, and the pattern inside it.
`before` is the folder at hand, and `since` what was read after it, both reversed. -/
def splitFrom : List Char → (before : Option (List Char)) → (since : List Char) →
    Option (List Char) × List Char
  | [], before, since => (before, since.reverse)
  | '\\' :: c :: cs, before, since => splitFrom cs before (c :: '\\' :: since)
  | c :: cs, before, since =>
    if c = '/' then
      let folder := match before with
        | some b => since ++ '/' :: b
        | none => since
      splitFrom cs (some folder) []
    else if isMeta c then (before, since.reverse ++ c :: cs)
    else splitFrom cs before (c :: since)

def split (pattern : String) : String × List Char :=
  match splitFrom pattern.toList none [] with
  | (none, inside) => (".", inside)
  | (some [], inside) => ("/", inside)
  | (some before, inside) => (String.ofList (unescape before.reverse), inside)

end Glob
end ModelGraph
