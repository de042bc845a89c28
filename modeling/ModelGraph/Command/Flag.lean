/-
# Flags

Arguments of a command are words and flags, in any order. A flag is a switch, which is
on when it is named, or takes a text, after an equals sign or as the next argument. Some
switches have a short form of one letter, and short forms can be joined. Two dashes alone
end the flags.
-/
import ModelGraph.Text.Quote

namespace ModelGraph

inductive FlagKind where
  /-- A truth value, or nothing at all; perhaps with a short form. -/
  | switch (short : Option Char)
  | text (default : String)
  deriving Repr, BEq, DecidableEq, Inhabited

structure Flag where
  name : String
  kind : FlagKind
  usage : String
  deriving Repr, BEq, DecidableEq, Inhabited

namespace Flag

def short? (f : Flag) : Option Char :=
  match f.kind with
  | .switch short => short
  | .text _ => none

def title (f : Flag) : String :=
  match f.short? with
  | some c => s!"-{c}, --{f.name}"
  | none => "--" ++ f.name

end Flag

inductive FlagFault where
  | badForm (argument : String)
  | unknown (name : String)
  | unknownShort (letter : Char) (letters : String)
  | noValue (argument : String)
  | badTruth (text title : String)
  deriving Repr, BEq, DecidableEq, Inhabited

def leadByte (c : Char) : Nat :=
  let n := c.toNat
  if n < 0x80 then n
  else if n < 0x800 then 0xC0 + n / 0x40
  else if n < 0x10000 then 0xE0 + n / 0x1000
  else 0xF0 + n / 0x40000

/-- The fault in words. Of an unknown letter the first byte is shown. -/
def FlagFault.message : FlagFault → String
  | badForm argument => "bad flag syntax: " ++ argument
  | unknown name => "unknown flag: --" ++ name
  | unknownShort letter letters =>
    "unknown shorthand flag: " ++ singleQuoted (String.singleton (Char.ofNat (leadByte letter))) ++
      " in -" ++ letters
  | noValue argument => "flag needs an argument: " ++ argument
  | badTruth text title =>
    "invalid argument " ++ quoted text ++ " for " ++ quoted title ++
      " flag: strconv.ParseBool: parsing " ++ quoted text ++ ": invalid syntax"

def truth? (text : String) : Option Bool :=
  if ["1", "t", "T", "true", "TRUE", "True"].contains text then some true
  else if ["0", "f", "F", "false", "FALSE", "False"].contains text then some false
  else none

inductive FlagValue where
  | truth (b : Bool)
  | text (s : String)
  deriving Repr, BEq, DecidableEq, Inhabited

def Flag.value (f : Flag) (text : String) : Except FlagFault FlagValue :=
  match f.kind with
  | .text _ => .ok (.text text)
  | .switch _ =>
    match truth? text with
    | some b => .ok (.truth b)
    | none => .error (.badTruth text f.title)

/-- Arguments: the values of flags, the last one first, and the words. -/
structure Arguments where
  values : List (String × FlagValue) := []
  words : List String := []
  deriving Repr, BEq, DecidableEq, Inhabited

namespace Arguments

def isOn (a : Arguments) (name : String) : Bool := a.values.lookup name = some (.truth true)

def text? (a : Arguments) (name : String) : Option String :=
  match a.values.lookup name with
  | some (.text s) => some s
  | _ => none

def give (a : Arguments) (f : Flag) (v : FlagValue) : Arguments :=
  { a with values := (f.name, v) :: a.values }

def nameAndText (cs : List Char) : String × Option String :=
  let name := String.ofList (cs.takeWhile (· != '='))
  match cs.dropWhile (· != '=') with
  | [] => (name, none)
  | _ :: text => (name, some (String.ofList text))

def takeShort (flags : List Flag) : Arguments → List Char → Except FlagFault Arguments
  | a, [] => .ok a
  | a, c :: cs =>
    match flags.find? fun f => f.short? = some c with
    | none => .error (.unknownShort c (String.ofList (c :: cs)))
    | some f =>
      match cs with
      | '=' :: d :: text => (f.value (String.ofList (d :: text))).map (a.give f)
      | cs => takeShort flags (a.give f (.truth true)) cs

def parseFrom (flags : List Flag) (a : Arguments) : List String → Except FlagFault Arguments
  | [] => .ok a
  | s :: rest =>
    match s.toList with
    | ['-', '-'] => .ok { a with words := a.words ++ rest }
    | '-' :: '-' :: cs =>
      if cs.head? = some '-' || cs.head? = some '=' then .error (.badForm s)
      else
        let (name, given) := nameAndText cs
        match flags.find? fun f => f.name = name with
        | none => .error (.unknown name)
        | some f =>
          match given, f.kind, rest with
          | some text, _, rest => do
            let v ← f.value text
            parseFrom flags (a.give f v) rest
          | none, .switch _, rest => parseFrom flags (a.give f (.truth true)) rest
          | none, .text _, [] => .error (.noValue s)
          | none, .text _, text :: rest => parseFrom flags (a.give f (.text text)) rest
    | '-' :: c :: cs => do
      let a ← takeShort flags a (c :: cs)
      parseFrom flags a rest
    | _ => parseFrom flags { a with words := a.words ++ [s] } rest

def parse (flags : List Flag) (args : List String) : Except FlagFault Arguments :=
  parseFrom flags {} args

end Arguments
end ModelGraph
