import ColdFire.Decimal.Double

namespace ColdFire

structure Decimal where
  digits : Nat
  exponent : Int
deriving DecidableEq

namespace Double

def compareDecimal (d : Decimal) (m : Nat) (e : Int) : Ordering :=
  compare (raised 2 (raised 10 d.digits d.exponent) (-e))
    (raised 10 (raised 2 m e) (-d.exponent))

/-- Whether the next smaller number is half as far away as the next greater one. -/
def isNarrowBelow (x : Double) : Bool :=
  2 * x.significand = significandLimit && leastExponent < x.exponent

/-- Whether a decimal number is rounded to `x`: it lies between the midpoints to both neighbours, or
on one of these if the significand is even. -/
def readsBack (x : Double) (d : Decimal) : Bool :=
  let low := 4 * x.significand - (if x.isNarrowBelow then 1 else 2)
  let above := compareDecimal d low (x.exponent - 2)
  let below := compareDecimal d (4 * x.significand + 2) (x.exponent - 2)
  let even := x.significand % 2 = 0
  (above = .gt || even && above = .eq) && (below = .lt || even && below = .eq)

def floorAt (x : Double) (power : Int) : Nat :=
  raised 10 x.num (-power) / raised 10 x.den power

/-- The multiple of a power of ten that reads back as `x`, the nearest of them, the even one of
two. -/
def multiple? (x : Double) (power : Int) : Option Decimal :=
  let lower : Decimal := ⟨x.floorAt power, power⟩
  let upper : Decimal := ⟨lower.digits + 1, power⟩
  match x.readsBack lower, x.readsBack upper with
  | false, false => none
  | true, false => some lower
  | false, true => some upper
  | true, true =>
    match compareDecimal ⟨lower.digits + upper.digits, power⟩ (2 * x.significand) x.exponent with
    | .gt => some lower
    | .lt => some upper
    | .eq => some (if lower.digits % 2 = 0 then lower else upper)

def exactDecimal (x : Double) : Decimal :=
  if 0 ≤ x.exponent then ⟨x.num, 0⟩
  else ⟨raised 5 x.significand (-x.exponent), x.exponent⟩

/-- Powers of ten, the greatest first: from one that is as great as any number down to one so small
that it has a multiple that reads back as any number. -/
def tenPowers : List Int := (List.range 633).map fun (i : Nat) => 308 - (i : Int)

/-- The decimal number with the fewest digits that reads back as `x`: the multiple of the greatest
power of ten. -/
def shortest (x : Double) : Decimal :=
  (tenPowers.findSome? x.multiple?).getD x.exactDecimal

end Double

end ColdFire
