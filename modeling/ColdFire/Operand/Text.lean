import ColdFire.ControlRegister
import ColdFire.Operand.Basic
import ColdFire.Text.Number

namespace ColdFire

def IndexReg.text (ix : IndexReg) : String :=
  let bank := if ix.addr then "a" else "d"
  let width := if ix.long then "l" else "w"
  let scale := if ix.scale = 1 then "" else s!"*{ix.scale}"
  s!"{bank}{ix.reg}.{width}{scale}"

def SpecialReg.text : SpecialReg → String
  | sr => "sr"
  | ccr => "ccr"
  | usp => "usp"
  | control code => (ControlRegister.name? code).getD (Text.hex 3 code.toNat)
  | cache 1 => "dc"
  | cache 2 => "ic"
  | cache 3 => "bc"
  | cache _ => "nc"

namespace RegList

def members (mask : UInt16) : List Nat :=
  (List.range 16).filter fun i => mask >>> UInt16.ofNat i &&& 1 == 1

/-- Ascending numbers as runs of neighbours. A run never crosses from D7 to A0. -/
def runs : List Nat → List (Nat × Nat)
  | [] => []
  | i :: rest =>
    match runs rest with
    | (first, last) :: more =>
      if first = i + 1 ∧ first ≠ 8 then (i, last) :: more else (i, i) :: (first, last) :: more
    | [] => [(i, i)]

def regName (i : Nat) : String :=
  if i < 8 then s!"d{i}" else s!"a{i - 8}"

def text (mask : UInt16) : String :=
  "/".intercalate ((runs (members mask)).map fun (first, last) =>
    if first = last then regName first else regName first ++ "-" ++ regName last)

end RegList

namespace Ea

def text : Ea → String
  | dataReg r => s!"d{r}"
  | addrReg r => s!"a{r}"
  | indirect r => s!"(a{r})"
  | postInc r => s!"(a{r})+"
  | preDec r => s!"-(a{r})"
  | disp r d => s!"({d.toInt},a{r})"
  | index r d ix => s!"({d.toInt},a{r},{ix.text})"
  | absShort v => s!"({Text.hex 1 v.toUInt16.toNat}).w"
  | absLong v => s!"({Text.hex 1 v.toNat}).l"
  | pcDisp d => s!"({d.toInt},pc)"
  | pcIndex d ix => s!"({d.toInt},pc,{ix.text})"
  | immediate v => "#" ++ Text.hex 1 v.toNat
  | regList mask => RegList.text mask
  | relative off => (if off.toInt < 0 then "*" else "*+") ++ Text.signedHex off.toInt
  | regPair w x => s!"d{w}:d{x}"
  | special s => s.text

end Ea

def IndexReg.describe (ix : IndexReg) : String :=
  "IndexReg \x7b addr: " ++ toString ix.addr ++ ", reg: " ++ toString ix.reg ++
    ", long: " ++ toString ix.long ++ ", scale: " ++ toString ix.scale ++ " \x7d"

def SpecialReg.describe : SpecialReg → String
  | sr => "Sr"
  | ccr => "Ccr"
  | usp => "Usp"
  | control code => s!"Control({code})"
  | cache c => s!"Cache({c})"

/-- The operand as its kind and its parts, as error messages show it. -/
def Ea.describe : Ea → String
  | dataReg r => s!"DataReg({r})"
  | addrReg r => s!"AddrReg({r})"
  | indirect r => s!"Indirect({r})"
  | postInc r => s!"PostInc({r})"
  | preDec r => s!"PreDec({r})"
  | disp r d => "Disp \x7b reg: " ++ toString r ++ ", disp: " ++ toString d.toInt ++ " \x7d"
  | index r d ix =>
    "Index \x7b reg: " ++ toString r ++ ", disp: " ++ toString d.toInt ++ ", index: " ++
      ix.describe ++ " \x7d"
  | absShort v => s!"AbsShort({v.toInt})"
  | absLong v => s!"AbsLong({v})"
  | pcDisp d => s!"PcDisp({d.toInt})"
  | pcIndex d ix =>
    "PcIndex \x7b disp: " ++ toString d.toInt ++ ", index: " ++ ix.describe ++ " \x7d"
  | immediate v => s!"Immediate({v})"
  | regList mask => s!"RegList({mask})"
  | relative off => s!"Relative({off.toInt})"
  | regPair w x => s!"RegPair({w}, {x})"
  | special s => s!"Special({s.describe})"

end ColdFire
