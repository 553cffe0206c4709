import ColdFire.Decimal.Shortest

namespace ColdFire.Json

/-- A number. One that is no integer, or one beyond 64 bits, has double precision; only such a one
has a sign when it is zero. -/
inductive Number where
  | int (v : Int)
  | double (negative : Bool) (magnitude : Double)

namespace Number

def ofNat? (negative : Bool) (v : Nat) : Option Number :=
  if negative then
    if v ≠ 0 ∧ v ≤ 0x8000000000000000 then some (.int (-v)) else none
  else if v < 0x10000000000000000 then some (.int v) else none

/-- A decimal number, with a point if it has at most 16 digits in front of it and no more than four
zeros behind it, with an exponent and its sign otherwise. -/
def decimalText (d : Decimal) : String :=
  let ds := Nat.toDigits 10 d.digits
  let front := (ds.length : Int) + d.exponent
  let zeros (n : Int) := List.replicate n.toNat '0'
  let behindFirst := match ds with
    | [d] => [d]
    | d :: rest => d :: '.' :: rest
    | [] => []
  if d.digits = 0 then "0.0"
  else if 0 ≤ d.exponent ∧ front ≤ 16 then String.ofList (ds ++ zeros d.exponent ++ ['.', '0'])
  else if 0 < front ∧ front ≤ 16 then
    String.ofList (ds.take front.toNat ++ '.' :: ds.drop front.toNat)
  else if -5 < front ∧ front ≤ 0 then String.ofList ('0' :: '.' :: zeros (-front) ++ ds)
  else String.ofList behindFirst ++ (if 0 < front then "e+" else "e") ++ toString (front - 1)

def shown : Number → String
  | int v => s!"integer `{v}`"
  | double negative x =>
    "floating point `" ++ (if negative then "-" else "") ++ decimalText x.shortest ++ "`"

end Number

end ColdFire.Json
