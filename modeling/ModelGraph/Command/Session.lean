/-
# Names of builds

Every build has a name of its own, made from random numbers: hexadecimal digits in five
groups, of which one digit tells how the name was made.
-/
import ModelGraph.Text.Hex

namespace ModelGraph

/-- The name made from the last 32 hexadecimal digits of a number. The thirteenth digit is 4,
and the seventeenth is one of 8, 9, a and b. -/
def sessionName (n : Nat) : String :=
  let digits := hex 32 n
  let part (start size : Nat) : List Char := (digits.drop start).take size
  "-".intercalate
    [String.ofList (part 0 8), String.ofList (part 8 4), String.ofList ('4' :: part 13 3),
     String.ofList (hexDigit (8 + n / 0x1000000000000000 % 4) :: part 17 3), String.ofList (part 20 12)]

end ModelGraph
