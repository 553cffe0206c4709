namespace ColdFire.Text

/-- The value of a digit `0`–`9`, `a`–`z` or `A`–`Z` if it is one of `radix`. -/
def digitValue? (radix : Nat) (c : Char) : Option Nat :=
  let v :=
    if '0' ≤ c ∧ c ≤ '9' then some (c.toNat - '0'.toNat)
    else if 'a' ≤ c ∧ c ≤ 'z' then some (c.toNat - 'a'.toNat + 10)
    else if 'A' ≤ c ∧ c ≤ 'Z' then some (c.toNat - 'A'.toNat + 10)
    else none
  v.filter (· < radix)

/-- The number that `cs`, read after `acc`, denotes in `radix`. -/
def digitsFrom? (radix : Nat) (acc : Nat) : List Char → Option Nat
  | [] => some acc
  | c :: cs => (digitValue? radix c).bind fun v => digitsFrom? radix (acc * radix + v) cs

def digits? (radix : Nat) (cs : List Char) : Option Nat :=
  if cs.isEmpty then none else digitsFrom? radix 0 cs

/-- A natural number below `bound`; a plus sign may stand in front. -/
def readNat? (radix bound : Nat) (cs : List Char) : Option Nat :=
  let body := match cs with
    | '+' :: rest => rest
    | _ => cs
  (digits? radix body).filter (· < bound)

def readInt64? (radix : Nat) (cs : List Char) : Option Int :=
  let value := match cs with
    | '+' :: rest => (digits? radix rest).map Int.ofNat
    | '-' :: rest => (digits? radix rest).map fun n => -(n : Int)
    | _ => (digits? radix cs).map Int.ofNat
  value.filter fun v => -0x8000000000000000 ≤ v ∧ v < 0x8000000000000000

end ColdFire.Text
