/-
# Numbers in text

Integers are read into the range of 64-bit words; anything outside is refused.
Decimal texts are read into the nearest double, ties to even, and a text whose
value lies beyond the largest double is refused.

Messages show a whole number with its digits in groups of three; from a million
on they show the fewest digits that tell its double, and a power of ten.
-/

namespace ModelGraph
namespace Number

def digits (cs : List Char) : Nat :=
  cs.foldl (fun n c => 10 * n + (c.toNat - 48)) 0

def natural? (cs : List Char) : Option Nat :=
  if cs.isEmpty || !cs.all Char.isDigit then none else some (digits cs)

/-- An optional sign and decimal digits, whatever the size. -/
def integer? (text : String) : Option Int :=
  match text.toList with
  | '-' :: cs => (natural? cs).map fun n => -(n : Int)
  | '+' :: cs => (natural? cs).map fun n => (n : Int)
  | cs => (natural? cs).map fun n => (n : Int)

def fitsWord (n : Int) : Bool := -0x8000000000000000 ≤ n && n < 0x8000000000000000

def word? (text : String) : Option Int :=
  match integer? text with
  | some n => if fitsWord n then some n else none
  | none => none

/-- A number literal taken apart: sign, digits before and after the point, and
the exponent. -/
structure Parts where
  negative : Bool
  whole : List Char
  fraction : List Char
  exponent : Int

def parts (literal : String) : Parts :=
  let (negative, cs) :=
    match literal.toList with
    | '-' :: cs => (true, cs)
    | cs => (false, cs)
  let whole := cs.takeWhile Char.isDigit
  let rest := cs.dropWhile Char.isDigit
  let (fraction, rest) :=
    match rest with
    | '.' :: cs => (cs.takeWhile Char.isDigit, cs.dropWhile Char.isDigit)
    | cs => ([], cs)
  let exponent :=
    match rest with
    | _ :: cs => (integer? (String.ofList cs)).getD 0
    | [] => 0
  ⟨negative, whole, fraction, exponent⟩

/-- The bits of the double nearest to a number literal, none if it is out of
range. Exponents far outside the range are settled without computing the
power of ten. -/
def double? (literal : String) : Option UInt64 :=
  let p := parts literal
  let mantissa := digits (p.whole ++ p.fraction)
  let exponent := p.exponent - p.fraction.length
  let size : Int := (toString mantissa).length + exponent
  let magnitude : Option Float :=
    if mantissa = 0 then some 0
    else if size > 310 then none
    else if size < -330 then some 0
    else
      let x := if exponent < 0 then Float.ofScientific mantissa true (-exponent).toNat
        else Float.ofScientific mantissa false exponent.toNat
      if x.isInf then none else some x
  magnitude.map fun x => (if p.negative then -x else x).toBits

def whole? (bits : UInt64) : Option Int :=
  let n := bits.toNat
  let fraction := n % 0x10000000000000
  let exponent := n / 0x10000000000000 % 0x800
  let (mantissa, scale) :=
    if exponent = 0 then (fraction, 1) else (fraction + 0x10000000000000, exponent)
  let shrunk := mantissa >>> (1075 - scale)
  let magnitude : Option Nat :=
    if 1075 ≤ scale then some (mantissa <<< (scale - 1075))
    else if shrunk <<< (1075 - scale) = mantissa then some shrunk
    else none
  magnitude.map fun m => if n < 0x8000000000000000 then (m : Int) else -(m : Int)

/-- Digits in groups of three from the right, with commas between. `digits` stand in
reverse order. -/
def groupReversed : List Char → List Char
  | a :: b :: c :: d :: rest => a :: b :: c :: ',' :: groupReversed (d :: rest)
  | cs => cs

def grouped (n : Int) : String :=
  let digits := (groupReversed (toString n.natAbs).toList.reverse).reverse
  String.ofList (if n < 0 then '-' :: digits else digits)

def tenTo : Nat → Nat
  | 0 => 1
  | k + 1 => 10 * tenTo k

def sameDouble (a b : Nat) : Bool := double? (toString a) = double? (toString b)

/-- The multiples of `unit` on both sides of `n` that have the double of `n`, the
nearer one first. -/
def roundedTo (unit n : Nat) : List Nat :=
  let below := n / unit * unit
  let above := below + unit
  (if n - below ≤ above - n then [below, above] else [above, below]).filter (sameDouble n)

/-- A number with the double of `n` that ends in as many zeros as can be, `zeros`
at most. -/
def roundest (n : Nat) : (zeros : Nat) → Nat
  | 0 => n
  | zeros + 1 =>
    match roundedTo (tenTo (zeros + 1)) n with
    | m :: _ => m
    | [] => roundest n zeros

def raised (c : Char) : Char :=
  match c with
  | '1' => '¹'
  | '2' => '²'
  | '3' => '³'
  | c => Char.ofNat (0x2070 + (c.toNat - 48))

/-- A natural number as a factor below ten and a power of ten, whose exponent has two
digits at least. -/
def scientific (n : Nat) : List Char :=
  let text := (toString (roundest n (toString n).length)).toList
  let exponent := (toString (text.length - 1)).toList
  let exponent := if exponent.length < 2 then '0' :: exponent else exponent
  let fraction := (text.drop 1).reverse.dropWhile (· = '0') |>.reverse
  text.take 1 ++ (if fraction.isEmpty then [] else '.' :: fraction) ++ ['×', '1', '0'] ++
    exponent.map raised

def shown (n : Int) : String :=
  if n.natAbs < 1000000 then grouped n
  else
    let text := scientific n.natAbs
    String.ofList (if n < 0 then '-' :: text else text)

end Number
end ModelGraph
