import ColdFire.Text.Blank

namespace ColdFire

/-- The tiers of the instruction set. Each has all that the one before it has. -/
inductive Tier where
  | a | b | c
deriving DecidableEq, Inhabited

namespace Tier

def level : Tier → Nat
  | a => 0
  | b => 1
  | c => 2

instance : LE Tier := ⟨fun s t => s.level ≤ t.level⟩

instance (s t : Tier) : Decidable (s ≤ t) := inferInstanceAs (Decidable (s.level ≤ t.level))

def all : List Tier := [a, b, c]

def letter : Tier → Char
  | a => 'A'
  | b => 'B'
  | c => 'C'

def name (t : Tier) : String := "ISA_" ++ t.letter.toString

/-- A tier by its letter, in either case, alone or after `isa_` or `ISA_`, with blanks around. -/
def parse? (s : String) : Option Tier :=
  let t := Text.trim s.toList
  let t := ((Text.afterMark? "isa_".toList t) <|> (Text.afterMark? "ISA_".toList t)).getD t
  match t with
  | ['a'] | ['A'] => some a
  | ['b'] | ['B'] => some b
  | ['c'] | ['C'] => some c
  | _ => none

def unknownMessage (s : String) : String := s!"unknown ISA tier `{s}` (expected A, B or C)"

end Tier

end ColdFire
