/-
# Decoding records from JSON

A decoder answers two questions. Whether a value fits (`check`), and which value
of the domain is left when several values are stored one over another (`build`).
The second takes a list because an object may repeat a key, and what a member
says goes over what an earlier member of the same name said: a text replaces a
text, but the members of a record go over its fields one by one, and the items of
a list over the items at the same place.

A member goes to the field of its name, or else to the one whose name differs
only in case; members without a field are passed over. `null` leaves a plain
field as it is and empties a list or an optional field.

Two faults can arise. A value of the wrong kind (`mismatch`) does not stop the
check of its record, so that a fault of a nested decoder that comes later is
still found; and such a fault (`nested`) stops at once and takes precedence.
`isolated` turns the first into the second at the border of a nested decoder.
-/
import ModelGraph.Json.Basic
import ModelGraph.Json.Number

namespace ModelGraph
namespace Decode

/-- What can go wrong when a value is decoded. -/
inductive Fault where
  | mismatch
  | nested (trail : String)
  deriving Repr, BEq, DecidableEq

def Fault.message : Fault → String
  | mismatch => "json: cannot decode the value"
  | nested trail => trail ++ "json: cannot decode the value"

def Fault.within (place : String) : Fault → Fault
  | mismatch => nested place
  | nested trail => nested (place ++ trail)

abbrev Decoded (α : Type) : Type := Except Fault α

/-- The border of a nested decoder: a mismatch inside is a fault of its own. -/
def isolated (d : Decoded α) : Decoded α :=
  match d with
  | .error .mismatch => .error (.nested "")
  | d => d

def inside (place : String) (d : Decoded α) : Decoded α :=
  d.mapError (Fault.within place)

/-- Checks the parts of a value in order. A mismatch is told when all of them
have been seen, another fault at once; `missed` remembers a mismatch. -/
def checkAll (check : β → Decoded Unit) : List β → (missed : Bool) → Decoded Unit
  | [], missed => if missed then .error .mismatch else .ok ()
  | b :: rest, missed =>
    match check b with
    | .ok _ => checkAll check rest missed
    | .error .mismatch => checkAll check rest true
    | .error fault => .error fault

/-- The letter that a character of a key is compared as: capitals count as
small letters, the long s and the Kelvin sign as the letters they look like. -/
def foldChar (c : Char) : Char :=
  if c.toNat = 0x17F then 's' else if c.toNat = 0x212A then 'k' else c.toLower

def foldKey (key : String) : List Char := key.toList.map foldChar

/-- A field of a record of type `α`: its name, which values it takes, and the
record that is left when values have been stored in it in order. -/
structure Slot (α : Type) where
  name : String
  check : Json → Decoded Unit
  store : List Json → α → α

def fieldFor (fields : List (Slot α)) (key : String) : Option (Slot α) :=
  match fields.find? fun f => f.name = key with
  | some f => some f
  | none => fields.find? fun f => foldKey f.name = foldKey key

def checkMember (fields : List (Slot α)) (m : String × Json) : Decoded Unit :=
  match fieldFor fields m.1 with
  | some f => f.check m.2
  | none => .ok ()

def named (fields : List (Slot α)) (ms : List (String × Json)) : List (String × Json) :=
  ms.filterMap fun m => (fieldFor fields m.1).map fun f => (f.name, m.2)

def valuesOf (name : String) (ms : List (String × Json)) : List Json :=
  ms.filterMap fun m => if m.1 = name then some m.2 else none

def fill (fields : List (Slot α)) (ms : List (String × Json)) (empty : α) : α :=
  let given := named fields ms
  fields.foldl (fun acc f =>
    match valuesOf f.name given with
    | [] => acc
    | js => f.store js acc) empty

def sinceReset (isReset : β → Bool) (js : List β) : List β :=
  (js.reverse.takeWhile fun j => !isReset j).reverse

def emptiesList (j : Json) : Bool := j.items.isEmpty

/-- The places of a list that rows were written over, one after another: as many
as the last row has, each with the items written there in order. -/
def columns (rows : List (List β)) : List (List β) :=
  (List.range ((rows.getLast?.getD []).length)).map fun i => rows.filterMap (·[i]?)

end Decode

open Decode (Decoded Slot)

/-- A way to read values of type `α` from JSON: which values fit, and what is left
when values that fit are stored one over another. -/
structure Decoder (α : Type) where
  check : Json → Decoded Unit
  build : List Json → α

namespace Decoder

def decode (d : Decoder α) (j : Json) : Decoded α := (d.check j).map fun _ => d.build [j]

/-- A plain value: the last one that was given, `null` being none, or `empty`. -/
def plain (read : Json → Option α) (empty : α) : Decoder α where
  check
    | .null => .ok ()
    | j => if (read j).isSome then .ok () else .error .mismatch
  build js := (js.reverse.findSome? read).getD empty

def text : Decoder String :=
  plain (fun
    | .string _ s => some s
    | _ => none) ""

def integer : Decoder Int :=
  plain (fun
    | .number literal => Number.word? literal
    | _ => none) 0

def boolean : Decoder Bool :=
  plain (fun
    | .bool b => some b
    | _ => none) false

def raw : Decoder Json where
  check _ := .ok ()
  build js := js.getLast?.getD .null

/-- An array of values; `null` is the empty one. The items of an array go over
those that stood at their places; after an empty array nothing stands there. -/
def list (d : Decoder α) : Decoder (List α) where
  check
    | .null => .ok ()
    | .array _ items => Decode.checkAll d.check items false
    | _ => .error .mismatch
  build js :=
    (Decode.columns ((Decode.sinceReset Decode.emptiesList js).map Json.items)).map d.build

def isNull : Json → Bool
  | .null => true
  | _ => false

/-- A value that may be absent; `null` makes it so. -/
def optional (d : Decoder α) : Decoder (Option α) where
  check
    | .null => .ok ()
    | j => d.check j
  build js :=
    match Decode.sinceReset isNull js with
    | [] => none
    | js => some (d.build js)

def record (fields : List (Slot α)) (empty : α) : Decoder α where
  check
    | .null => .ok ()
    | .object _ ms => Decode.checkAll (Decode.checkMember fields) ms false
    | _ => .error .mismatch
  build js := Decode.fill fields (js.flatMap Json.members) empty

/-- A value that is read on its own: nothing that was there before shows through,
and a mismatch inside is a fault of its own. `finish` adds to what was read what
the value as a whole says. -/
def whole (d : Decoder α) (finish : Json → α → α) : Decoder α where
  check j := Decode.isolated (d.check j)
  build js :=
    match js.getLast? with
    | some j => finish j (d.build [j])
    | none => d.build []

/-- A value that is read on its own and is either a bare text or written out. -/
def textOr (ofText : String → α) (d : Decoder α) : Decoder α where
  check
    | .string _ _ => .ok ()
    | j => Decode.isolated (d.check j)
  build js :=
    match js.getLast? with
    | some (.string _ s) => ofText s
    | some j => d.build [j]
    | none => d.build []

def tag : Decoder String :=
  record [{ name := "_type", check := text.check, store := fun js _ => text.build js }] ""

/-- A decoder for values that nest: `d n` reads values up to the depth `n`. -/
def nested (d : Nat → Decoder α) : Decoder α where
  check j := (d (j.depth + 1)).check j
  build js := (d (Json.depths js + 1)).build js

end Decoder

namespace Decode
namespace Slot

def field (name : String) (d : Decoder β) (put : β → α → α) : Slot α :=
  { name, check := d.check, store := fun js => put (d.build js) }

def text (name : String) (put : String → α → α) : Slot α := field name .text put

def integer (name : String) (put : Int → α → α) : Slot α := field name .integer put

def boolean (name : String) (put : Bool → α → α) : Slot α := field name .boolean put

/-- A field that keeps the value undecoded, `null` included. -/
def raw (name : String) (put : Json → α → α) : Slot α := field name .raw put

def list (name : String) (d : Decoder β) (put : List β → α → α) : Slot α :=
  field name d.list put

def optional (name : String) (d : Decoder β) (put : Option β → α → α) : Slot α :=
  field name d.optional put

end Slot
end Decode
end ModelGraph
