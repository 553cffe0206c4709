import ColdFire.Word.Field

namespace ColdFire

namespace Field

def eaReg : Field := ⟨0, 3⟩
def eaMode : Field := ⟨3, 3⟩
def lowReg : Field := ⟨0, 3⟩
def size : Field := ⟨6, 2⟩
def highReg : Field := ⟨9, 3⟩
def moveMode : Field := ⟨6, 3⟩
def moveReg : Field := ⟨9, 3⟩
def quickData : Field := ⟨9, 3⟩
def branchDisp : Field := ⟨0, 8⟩
def cond : Field := ⟨8, 4⟩
def shiftInReg : Field := ⟨5, 1⟩
def shiftCount : Field := ⟨9, 3⟩
def byteData : Field := ⟨0, 8⟩
def vector : Field := ⟨0, 4⟩
def cache : Field := ⟨6, 2⟩

def briefDisp : Field := ⟨0, 8⟩
def briefScale : Field := ⟨9, 2⟩
def briefLong : Field := ⟨11, 1⟩
def briefReg : Field := ⟨12, 3⟩
def briefBank : Field := ⟨15, 1⟩

def remainderReg : Field := ⟨0, 3⟩
def signed : Field := ⟨11, 1⟩
def quotientReg : Field := ⟨12, 3⟩

def controlCode : Field := ⟨0, 12⟩
def controlReg : Field := ⟨12, 3⟩
def controlBank : Field := ⟨15, 1⟩

end Field

structure Stencil where
  fields : List (String × Field)

namespace Stencil

def field? (s : Stencil) (name : String) : Option Field :=
  s.fields.lookup name

/-- The word after the named fields were set in order; unknown names are passed over. -/
def setAll (s : Stencil) (word : UInt16) (values : List (String × UInt16)) : UInt16 :=
  values.foldl (fun w (name, v) => (s.field? name).elim w fun f => f.set w v) word

def getAll (s : Stencil) (word : UInt16) : List (String × UInt16) :=
  s.fields.map fun (name, f) => (name, f.get word)

/-- One effective address: `.... .... ..mm mrrr`. -/
def ea : Stencil := ⟨[("ea_reg", .eaReg), ("ea_mode", .eaMode)]⟩

/-- One effective address and its size: `.... .... ssmm mrrr`. -/
def sizedEa : Stencil := ⟨[("ea_reg", .eaReg), ("ea_mode", .eaMode), ("size", .size)]⟩

/-- A register, a mode of operation and an effective address: `.... RRRo oomm mrrr`. -/
def regEa : Stencil :=
  ⟨[("ea_reg", .eaReg), ("ea_mode", .eaMode), ("opmode", ⟨6, 3⟩), ("reg", .highReg)]⟩

/-- Two effective addresses, the destination with its parts swapped: `..ss RRRM MMmm mrrr`. -/
def move : Stencil :=
  ⟨[("src_reg", .eaReg), ("src_mode", .eaMode), ("dst_mode", .moveMode), ("dst_reg", .moveReg),
    ("size", ⟨12, 2⟩)]⟩

/-- Three bits of data and an effective address: `0101 DDDs ssmm mrrr`. -/
def quick : Stencil :=
  ⟨[("ea_reg", .eaReg), ("ea_mode", .eaMode), ("size", .size), ("sub", ⟨8, 1⟩),
    ("data", .quickData)]⟩

/-- A condition and a short displacement: `0110 cccc dddd dddd`. -/
def branch : Stencil := ⟨[("disp", .branchDisp), ("cond", .cond)]⟩

/-- A condition and a register: `0101 cccc 1100 0rrr`. -/
def condReg : Stencil := ⟨[("reg", .lowReg), ("mode", .eaMode), ("cond", .cond)]⟩

/-- A shift of a register: `1110 cccd ssik krrr`. -/
def shift : Stencil :=
  ⟨[("reg", .lowReg), ("kind", ⟨3, 2⟩), ("ir", .shiftInReg), ("size", .size), ("dir", ⟨8, 1⟩),
    ("count", .shiftCount)]⟩

/-- Eight bits of data and a register: `0111 RRR0 dddd dddd`. -/
def moveq : Stencil := ⟨[("data", .byteData), ("bit8", ⟨8, 1⟩), ("reg", .highReg)]⟩

/-- A trap vector: `.... .... .... vvvv`. -/
def vector : Stencil := ⟨[("vector", .vector)]⟩

/-- A register alone: `.... .... .... .rrr`. -/
def reg : Stencil := ⟨[("reg", .lowReg)]⟩

/-- A cache and an address register: `1111 0100 cc1s srrr`. -/
def cache : Stencil := ⟨[("reg", .lowReg), ("scope", ⟨3, 2⟩), ("cache", .cache)]⟩

/-- The extension word of an indexed operand: `DRRR Lss0 dddd dddd`. -/
def brief : Stencil :=
  ⟨[("disp", .briefDisp), ("scale", .briefScale), ("long", .briefLong), ("reg", .briefReg),
    ("da", .briefBank)]⟩

/-- The extension word of a long multiplication or division: `0QQQ s000 0000 0RRR`. -/
def mulDiv : Stencil :=
  ⟨[("dr", .remainderReg), ("signed", .signed), ("dq", .quotientReg)]⟩

/-- A register and the code of a control register: `ARRR cccc cccc cccc`. -/
def control : Stencil :=
  ⟨[("code", .controlCode), ("reg", .controlReg), ("da", .controlBank)]⟩

end Stencil

end ColdFire
