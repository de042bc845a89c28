/-
# What plain scalars stand for

A scalar of a settings file that stands without quotes may be more than a text:
nothing, a truth value, a number or a date. Numbers are integers of 64 bits, in the
base that their first characters name, or decimal numbers in the range of doubles;
underscores between the digits do not count. Dates are days of the calendar, with a
time of day maybe.
-/
import ModelGraph.Json.Number

namespace ModelGraph

inductive YamlTag where
  | null | boolean | integer | float | date | merge | text | sequence | mapping
  | other (mark : String)
  deriving Repr, BEq, DecidableEq, Inhabited

namespace YamlTag

def mark : YamlTag → String
  | null => "!!null"
  | boolean => "!!bool"
  | integer => "!!int"
  | float => "!!float"
  | date => "!!timestamp"
  | merge => "!!merge"
  | text => "!!str"
  | sequence => "!!seq"
  | mapping => "!!map"
  | other m => m

def known : List YamlTag :=
  [null, boolean, integer, float, date, merge, text, sequence, mapping]

def ofMark (m : String) : YamlTag := (known.find? fun t => t.mark = m).getD (other m)

end YamlTag

namespace Scalar

/-! ## Numbers -/

def digit? (base : Nat) (c : Char) : Option Nat :=
  let value? :=
    if c.isDigit then some (c.toNat - 48)
    else if 'a' ≤ c && c ≤ 'f' then some (c.toNat - 87)
    else if 'A' ≤ c && c ≤ 'F' then some (c.toNat - 55)
    else none
  value?.filter (· < base)

def digits? (base : Nat) (cs : List Char) : Option Nat :=
  cs.foldl (fun n c => n.bind fun n => (digit? base c).map fun d => base * n + d) (some 0)

def someDigits? (base : Nat) (cs : List Char) : Option Nat :=
  if cs.isEmpty then none else digits? base cs

/-- The value of an integer without sign: decimal, or in the base that the first
characters name. -/
def natural? : List Char → Option Nat
  | '0' :: c :: d :: cs =>
    if c = 'x' || c = 'X' then digits? 16 (d :: cs)
    else if c = 'o' || c = 'O' then digits? 8 (d :: cs)
    else if c = 'b' || c = 'B' then digits? 2 (d :: cs)
    else digits? 8 (c :: d :: cs)
  | '0' :: cs => digits? 8 cs
  | cs => someDigits? 10 cs

/-- Whether a natural number with a sign is in the range of 64-bit words. -/
def fits (sign : Option Char) (n : Nat) : Bool :=
  match sign with
  | none => n < 0x10000000000000000
  | some '-' => n ≤ 0x8000000000000000
  | some _ => n < 0x8000000000000000

def signed : List Char → Option Char × List Char
  | '+' :: cs => (some '+', cs)
  | '-' :: cs => (some '-', cs)
  | cs => (none, cs)

/-- Whether characters are an integer. The sign may also stand after the mark of the base,
if that is two or eight. -/
def isInteger (cs : List Char) : Bool :=
  let (sign, body) := signed cs
  (natural? body).any (fits sign) ||
    match cs with
    | '0' :: c :: rest =>
      let (sign, body) := signed rest
      (c = 'b' && (someDigits? 2 body).any (fits sign)) ||
        (c = 'o' && (someDigits? 8 body).any (fits sign))
    | _ => false

def areDigits (cs : List Char) : Bool := !cs.isEmpty && cs.all Char.isDigit

def isExponent : List Char → Bool
  | [] => true
  | c :: cs => (c = 'e' || c = 'E') && areDigits (signed cs).2

def isDecimal (cs : List Char) : Bool :=
  let cs := (signed cs).2
  let whole := cs.takeWhile Char.isDigit
  match cs.dropWhile Char.isDigit with
  | '.' :: after =>
    let fraction := after.takeWhile Char.isDigit
    (!whole.isEmpty || !fraction.isEmpty) && isExponent (after.dropWhile Char.isDigit)
  | after => !whole.isEmpty && isExponent after

/-- Whether characters are a decimal number that has a double near it. -/
def isFloat (cs : List Char) : Bool :=
  isDecimal cs &&
    let (sign, body) := signed cs
    (Number.double? (String.ofList (if sign = some '-' then '-' :: body else body))).isSome

/-- Whether underscores stand between digits only. `before` is the character before. -/
def separates : (before : Char) → List Char → Bool
  | before, [] => before != '_'
  | before, c :: cs =>
    (if c = '_' then before.isDigit else before != '_' || c.isDigit) && separates c cs

/-- Whether characters that begin with a point are a decimal number. -/
def isFraction (cs : List Char) : Bool := separates ' ' cs && isFloat (cs.filter (· != '_'))

/-! ## Dates -/

def number? : List Char → Option (Nat × List Char)
  | c :: d :: cs =>
    if c.isDigit && d.isDigit then some (Number.digits [c, d], cs)
    else if c.isDigit then some (Number.digits [c], d :: cs)
    else none
  | [c] => if c.isDigit then some (Number.digits [c], []) else none
  | [] => none

def after? (c : Char) : List Char → Option (List Char)
  | d :: cs => if d = c then some cs else none
  | [] => none

def daysIn (year month : Nat) : Nat :=
  if month = 2 then
    if year % 4 = 0 && (year % 100 != 0 || year % 400 = 0) then 29 else 28
  else if [4, 6, 9, 11].contains month then 30 else 31

/-- What follows a day of the calendar: year, month and day with dashes between. -/
def afterDay? (cs : List Char) : Option (List Char) := do
  let year := cs.takeWhile Char.isDigit
  if year.length != 4 then none
  let cs ← after? '-' (cs.drop 4)
  let (month, cs) ← number? cs
  let cs ← after? '-' cs
  let (day, cs) ← number? cs
  if 1 ≤ month && month ≤ 12 && 1 ≤ day && day ≤ daysIn (Number.digits year) month then some cs
  else none

def afterFraction : List Char → List Char
  | c :: d :: cs =>
    if (c = '.' || c = ',') && d.isDigit then cs.dropWhile Char.isDigit else c :: d :: cs
  | cs => cs

/-- What follows a time of day: hours, minutes and seconds with colons between. -/
def afterTime? (cs : List Char) : Option (List Char) := do
  let (hour, cs) ← number? cs
  let cs ← after? ':' cs
  let (minute, cs) ← number? cs
  let cs ← after? ':' cs
  let (second, cs) ← number? cs
  if hour < 24 && minute < 60 && second < 60 then some (afterFraction cs) else none

def isZone : List Char → Bool
  | ['Z'] => true
  | [sign, a, b, ':', c, d] =>
    (sign = '+' || sign = '-') && [a, b, c, d].all Char.isDigit &&
      Number.digits [a, b] ≤ 24 && Number.digits [c, d] ≤ 60
  | _ => false

/-- Whether characters are a date. A time of day has a zone after the letter T, and none
after blanks. -/
def isDate (cs : List Char) : Bool :=
  match afterDay? cs with
  | none => false
  | some [] => true
  | some (c :: rest) =>
    if c = 'T' || c = 't' then (afterTime? rest).any isZone
    else c = ' ' && afterTime? (rest.dropWhile (· = ' ')) = some []

/-! ## Tags -/

def nullWords : List String := ["", "~", "null", "Null", "NULL"]

def truths : List (String × Bool) :=
  [("true", true), ("True", true), ("TRUE", true), ("false", false), ("False", false),
   ("FALSE", false)]

def specialNumbers : List String :=
  [".nan", ".NaN", ".NAN", ".inf", ".Inf", ".INF", "+.inf", "+.Inf", "+.INF", "-.inf", "-.Inf",
   "-.INF"]

/-- Words that stand for truth values where nothing else is expected. -/
def truthWords : List (String × Bool) :=
  ["y", "Y", "yes", "Yes", "YES", "on", "On", "ON"].map (·, true) ++
    ["n", "N", "no", "No", "NO", "off", "Off", "OFF"].map (·, false)

/-- What a plain text stands for; `dates` tells whether it may be a date. -/
def tagWith (dates : Bool) (text : String) : YamlTag :=
  let cs := text.toList
  let plain := cs.filter (· != '_')
  let first := cs.head?.getD ' '
  if nullWords.contains text then .null
  else if (truths.lookup text).isSome then .boolean
  else if specialNumbers.contains text then .float
  else if first = '.' then if isFraction cs then .float else .text
  else if first.isDigit || first = '+' || first = '-' then
    if dates && isDate cs then .date
    else if isInteger plain then .integer
    else if isFloat plain then .float
    else .text
  else .text

def tagOf (text : String) : YamlTag := tagWith true text

/-- Whether texts can be read as what a tag says; else they stay texts. -/
def isReadable (tag : YamlTag) : Bool :=
  [.null, .boolean, .integer, .float, .date].contains tag

/-- Reads a text as what a tag says, if texts can be. An integer will do where a decimal
number is wanted. -/
def readAs (tag : YamlTag) (text : String) : Except String YamlTag :=
  if !isReadable tag then .ok .text
  else
    let found := tagWith (tag = .date) text
    if found = tag || (tag = .float && found = .integer) then .ok tag
    else .error ("cannot decode " ++ found.mark ++ " \x60" ++ text ++ "\x60 as a " ++ tag.mark)

end Scalar
end ModelGraph
