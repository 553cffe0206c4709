namespace ColdFire

structure Modes where
  bits : UInt16
deriving DecidableEq, Inhabited

namespace Modes

def dn : Modes := ⟨0x001⟩
def an : Modes := ⟨0x002⟩
def ind : Modes := ⟨0x004⟩
def postInc : Modes := ⟨0x008⟩
def preDec : Modes := ⟨0x010⟩
def disp : Modes := ⟨0x020⟩
def index : Modes := ⟨0x040⟩
def absShort : Modes := ⟨0x080⟩
def absLong : Modes := ⟨0x100⟩
def pcDisp : Modes := ⟨0x200⟩
def pcIndex : Modes := ⟨0x400⟩
def imm : Modes := ⟨0x800⟩

def none : Modes := ⟨0⟩

instance : Union Modes := ⟨fun s t => ⟨s.bits ||| t.bits⟩⟩
instance : SDiff Modes := ⟨fun s t => ⟨s.bits &&& ~~~t.bits⟩⟩

def contains (s t : Modes) : Bool := s.bits &&& t.bits == t.bits

def all : Modes := ⟨0xFFF⟩
/-- Everything but address registers. -/
def data : Modes := all \ an
/-- Everything that has an address known before it is used. -/
def control : Modes := ind ∪ disp ∪ index ∪ absShort ∪ absLong ∪ pcDisp ∪ pcIndex
def alterable : Modes :=
  dn ∪ an ∪ ind ∪ postInc ∪ preDec ∪ disp ∪ index ∪ absShort ∪ absLong
def dataAlterable : Modes := alterable \ an
def memoryAlterable : Modes := dataAlterable \ dn
/-- Registers and the indirect forms without an extension word. -/
def simple : Modes := dn ∪ an ∪ ind ∪ postInc ∪ preDec
/-- What the long multiplications and divisions and the static bit operations accept. -/
def upToDisp : Modes := dn ∪ ind ∪ postInc ∪ preDec ∪ disp

/-- The mode of a raw operand field; three of the forms of mode 7 are reserved. -/
def ofField? (mode reg : UInt16) : Option Modes :=
  match (mode &&& 7).toNat with
  | 0 => some dn
  | 1 => some an
  | 2 => some ind
  | 3 => some postInc
  | 4 => some preDec
  | 5 => some disp
  | 6 => some index
  | _ =>
    match (reg &&& 7).toNat with
    | 0 => some absShort
    | 1 => some absLong
    | 2 => some pcDisp
    | 3 => some pcIndex
    | 4 => some imm
    | _ => Option.none

/-- The pairs of source and destination that one MOVE can hold: a source with an extension word
leaves room for a destination without one, or for two 16-bit displacements. -/
def movePair (src dst : Modes) : Bool :=
  if simple.contains src then true
  else if (disp ∪ pcDisp).contains src then (simple ∪ disp).contains dst
  else simple.contains dst

end Modes

end ColdFire
