namespace ColdFire.Text

def padStart (width : Nat) (fill : Char) (cs : List Char) : List Char :=
  List.replicate (width - cs.length) fill ++ cs

def padEnd (width : Nat) (cs : List Char) : List Char :=
  cs ++ List.replicate (width - cs.length) ' '

def hexDigits (width n : Nat) : List Char :=
  padStart width '0' (Nat.toDigits 16 n)

def upperHexDigits (width n : Nat) : List Char :=
  (hexDigits width n).map Char.toUpper

/-- The mark `0x` and at least `width` lowercase digits of `n`. -/
def hex (width n : Nat) : String :=
  String.ofList ('0' :: 'x' :: hexDigits width n)

/-- A signed number in hexadecimal, the minus sign in front of the mark. -/
def signedHex (v : Int) : String :=
  if v < 0 then "-" ++ hex 1 v.natAbs else hex 1 v.natAbs

def column (width : Nat) (s : String) : String :=
  String.ofList (padEnd width s.toList)

def columnRight (width : Nat) (s : String) : String :=
  String.ofList (padStart width ' ' s.toList)

def hexBytes (bytes : List UInt8) : String :=
  String.ofList (bytes.flatMap fun b => hexDigits 2 b.toNat)

end ColdFire.Text
