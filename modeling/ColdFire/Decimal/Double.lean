namespace ColdFire

/-- The number `significand * 2 ^ exponent`. The significand has 53 bits, or fewer where the
exponent is the least. -/
structure Double where
  significand : Nat
  exponent : Int
deriving DecidableEq

/-- The product of a number and a power of `base`; the number itself if the exponent is negative. -/
def raised (base n : Nat) (exponent : Int) : Nat := n * Nat.pow base exponent.toNat

/-- The nearest integer to a quotient, the even one of two. -/
def roundedQuotient (num den : Nat) : Nat :=
  let q := num / den
  let twice := 2 * (num % den)
  if twice < den ∨ (twice = den ∧ q % 2 = 0) then q else q + 1

namespace Double

def significandLimit : Nat := 0x20000000000000

def leastExponent : Int := -1074

def greatestExponent : Int := 971

def binaryLog (num den : Nat) : Int :=
  let l : Int := (num.log2 : Int) - den.log2
  if raised 2 den l ≤ raised 2 num (-l) then l else l - 1

def ofQuotient? (num den : Nat) : Option Double :=
  if num = 0 then some ⟨0, leastExponent⟩
  else
    let e := max (binaryLog num den - 52) leastExponent
    let m := roundedQuotient (raised 2 num (-e)) (raised 2 den e)
    -- Rounding up may take one bit more.
    let x : Double := if m < significandLimit then ⟨m, e⟩ else ⟨m / 2, e + 1⟩
    if x.exponent ≤ greatestExponent then some x else none

def ofNat? (n : Nat) : Option Double := ofQuotient? n 1

def num (x : Double) : Nat := raised 2 x.significand x.exponent

def den (x : Double) : Nat := raised 2 1 (-x.exponent)

def mul? (x y : Double) : Option Double := ofQuotient? (x.num * y.num) (x.den * y.den)

def div? (x y : Double) : Option Double := ofQuotient? (x.num * y.den) (x.den * y.num)

def tenPower? (n : Nat) : Option Double := ofNat? (raised 10 1 n)

def greatestTenPower : Nat := 308

/-- The number times a power of ten. Each step rounds: quotients by the greatest power while the
exponent is below its negative, and one product or quotient. -/
def scaled? (x : Double) (exponent : Int) : Option Double := do
  if exponent.natAbs ≤ greatestTenPower then
    let power ← tenPower? exponent.natAbs
    if 0 ≤ exponent then x.mul? power else x.div? power
  else if x.significand = 0 then some x
  else if 0 ≤ exponent then none
  else
    let y ← x.div? (← tenPower? greatestTenPower)
    y.scaled? (exponent + greatestTenPower)
termination_by (-exponent).toNat
decreasing_by
  simp only [greatestTenPower]
  omega

def ofDecimal? (digits : Nat) (exponent : Int) : Option Double := do
  (← ofNat? digits).scaled? exponent

end Double

end ColdFire
