/-
# Reading JSON text

`Json.read` reads one JSON value and nothing after it. Blanks are the four of
the format; a string may not hold a control character; a lone surrogate escape
reads as the replacement character; a value nested in more than ten thousand
arrays and objects is refused.

The reader walks the characters with their number at hand, so that the text of
an array or object is cut out of the input by counting.
-/
import ModelGraph.Json.Basic

namespace ModelGraph
namespace Json

/-- The characters still to be read, and how many they are. -/
structure Input where
  chars : List Char
  left : Nat

namespace Input

def ofString (s : String) : Input :=
  let chars := s.toList
  ⟨chars, chars.length⟩

def since (start stop : Input) : String :=
  String.ofList (start.chars.take (start.left - stop.left))

/-- Drops leading characters as long as `p` holds. -/
def skipWhile (p : Char → Bool) : List Char → Nat → Input
  | [], n => ⟨[], n⟩
  | c :: cs, n => if p c then skipWhile p cs (n - 1) else ⟨c :: cs, n⟩

def skipBlanks (i : Input) : Input :=
  skipWhile (fun c => c = ' ' || c = '\t' || c = '\n' || c = '\r') i.chars i.left

def skipDigits (i : Input) : Input := skipWhile Char.isDigit i.chars i.left

def expect (c : Char) (i : Input) : Option Input :=
  match i.chars with
  | d :: cs => if d = c then some ⟨cs, i.left - 1⟩ else none
  | [] => none

def expectWord : List Char → Input → Option Input
  | [], i => some i
  | c :: w, i => (i.expect c).bind (expectWord w)

end Input

def hexValue? (c : Char) : Option Nat :=
  if c.isDigit then some (c.toNat - 48)
  else if 'a' ≤ c && c ≤ 'f' then some (c.toNat - 87)
  else if 'A' ≤ c && c ≤ 'F' then some (c.toNat - 55)
  else none

def fourHex? : List Char → Option (Nat × List Char)
  | a :: b :: c :: d :: rest => do
    let n := ((← hexValue? a) * 16 + (← hexValue? b)) * 256 + (← hexValue? c) * 16 + (← hexValue? d)
    pure (n, rest)
  | _ => none

def replacement : Char := Char.ofNat 0xFFFD

/-- The low surrogate written as an escape at the head of a list, and the rest. -/
def lowSurrogate? : List Char → Option (Nat × List Char)
  | '\\' :: 'u' :: rest =>
    match fourHex? rest with
    | some (n, after) => if 0xDC00 ≤ n ∧ n < 0xE000 then some (n, after) else none
    | none => none
  | _ => none

/-- The characters of a string literal up to its closing quote, and the input
after the quote; `n` counts the characters left. The fuel bounds the steps. -/
def stringBody : (fuel : Nat) → List Char → List Char → (n : Nat) → Option (List Char × Input)
  | 0, _, _, _ => none
  | fuel + 1, acc, cs, n =>
    match cs with
    | [] => none
    | '"' :: rest => some (acc.reverse, ⟨rest, n - 1⟩)
    | '\\' :: 'u' :: rest =>
      match fourHex? rest with
      | none => none
      | some (high, after) =>
        if 0xD800 ≤ high ∧ high < 0xE000 then
          match (if high < 0xDC00 then lowSurrogate? after else none) with
          | some (low, after') =>
            stringBody fuel (Char.ofNat (0x10000 + (high - 0xD800) * 0x400 + (low - 0xDC00)) :: acc)
              after' (n - 12)
          | none => stringBody fuel (replacement :: acc) after (n - 6)
        else stringBody fuel (Char.ofNat high :: acc) after (n - 6)
    | '\\' :: c :: rest =>
      match c with
      | '"' => stringBody fuel ('"' :: acc) rest (n - 2)
      | '\\' => stringBody fuel ('\\' :: acc) rest (n - 2)
      | '/' => stringBody fuel ('/' :: acc) rest (n - 2)
      | 'b' => stringBody fuel ('\x08' :: acc) rest (n - 2)
      | 'f' => stringBody fuel ('\x0c' :: acc) rest (n - 2)
      | 'n' => stringBody fuel ('\n' :: acc) rest (n - 2)
      | 'r' => stringBody fuel ('\r' :: acc) rest (n - 2)
      | 't' => stringBody fuel ('\t' :: acc) rest (n - 2)
      | _ => none
    | c :: rest => if c.toNat < 32 ∨ c = '\\' then none else stringBody fuel (c :: acc) rest (n - 1)

def readString (i : Input) : Option (String × String × Input) := do
  let start ← i.expect '"'
  let (value, stop) ← stringBody (start.left + 1) [] start.chars start.left
  pure (i.since stop, String.ofList value, stop)

def skipFraction (i : Input) : Option Input :=
  match i.expect '.' with
  | none => some i
  | some j =>
    let k := j.skipDigits
    if k.left < j.left then some k else none

def skipExponent (i : Input) : Option Input :=
  match (i.expect 'e').orElse (fun _ => i.expect 'E') with
  | none => some i
  | some j =>
    let j' := ((j.expect '+').orElse (fun _ => j.expect '-')).getD j
    let k := j'.skipDigits
    if k.left < j'.left then some k else none

def readNumber (i : Input) : Option (String × Input) := do
  let start := (i.expect '-').getD i
  let whole ←
    match start.chars with
    | '0' :: rest => some ⟨rest, start.left - 1⟩
    | c :: _ => if c.isDigit then some start.skipDigits else none
    | [] => none
  let stop ← skipExponent (← skipFraction whole)
  pure (i.since stop, stop)

mutual

/-- One value that starts at the first character, `depth` levels below the
deepest nesting allowed. -/
def readValue : (fuel depth : Nat) → Input → Option (Json × Input)
  | 0, _, _ => none
  | fuel + 1, depth, i =>
    match i.chars with
    | 'n' :: _ => (i.expectWord ['n', 'u', 'l', 'l']).map fun r => (.null, r)
    | 't' :: _ => (i.expectWord ['t', 'r', 'u', 'e']).map fun r => (.bool true, r)
    | 'f' :: _ => (i.expectWord ['f', 'a', 'l', 's', 'e']).map fun r => (.bool false, r)
    | '"' :: _ => (readString i).map fun (literal, value, r) => (.string literal value, r)
    | '[' :: rest =>
      match depth with
      | 0 => none
      | depth + 1 =>
        let inner := Input.skipBlanks ⟨rest, i.left - 1⟩
        match inner.expect ']' with
        | some r => some (.array (i.since r) [], r)
        | none => (readItems fuel depth inner []).map fun (items, r) => (.array (i.since r) items, r)
    | '\x7b' :: rest =>
      match depth with
      | 0 => none
      | depth + 1 =>
        let inner := Input.skipBlanks ⟨rest, i.left - 1⟩
        match inner.expect '\x7d' with
        | some r => some (.object (i.since r) [], r)
        | none => (readMembers fuel depth inner []).map fun (ms, r) => (.object (i.since r) ms, r)
    | _ => (readNumber i).map fun (literal, r) => (.number literal, r)

/-- The rest of an array, from its next item to its closing bracket. -/
def readItems : (fuel depth : Nat) → Input → List Json → Option (List Json × Input)
  | 0, _, _, _ => none
  | fuel + 1, depth, i, acc =>
    match readValue fuel depth i with
    | none => none
    | some (v, r) =>
      let r := r.skipBlanks
      match r.chars with
      | ',' :: cs => readItems fuel depth (Input.skipBlanks ⟨cs, r.left - 1⟩) (v :: acc)
      | ']' :: cs => some ((v :: acc).reverse, ⟨cs, r.left - 1⟩)
      | _ => none

/-- The rest of an object, from its next key to its closing brace. -/
def readMembers : (fuel depth : Nat) → Input → List (String × Json) →
    Option (List (String × Json) × Input)
  | 0, _, _, _ => none
  | fuel + 1, depth, i, acc =>
    match readString i with
    | none => none
    | some (_, key, r) =>
      match r.skipBlanks.expect ':' with
      | none => none
      | some r =>
        match readValue fuel depth r.skipBlanks with
        | none => none
        | some (v, r) =>
          let r := r.skipBlanks
          match r.chars with
          | ',' :: cs => readMembers fuel depth (Input.skipBlanks ⟨cs, r.left - 1⟩) ((key, v) :: acc)
          | '\x7d' :: cs => some (((key, v) :: acc).reverse, ⟨cs, r.left - 1⟩)
          | _ => none

end

/-- The deepest nesting of arrays and objects that is read. -/
def depthLimit : Nat := 10000

/-- Reads a text that holds one JSON value. Every step of the reader but the
opening ones uses up a character, so twice the length is fuel enough. -/
def read (s : String) : Option Json :=
  let i := Input.ofString s
  match readValue (2 * i.left + 2) depthLimit i.skipBlanks with
  | some (v, r) => if r.skipBlanks.chars.isEmpty then some v else none
  | none => none

def isValid (s : String) : Bool := (read s).isSome

end Json
end ModelGraph
