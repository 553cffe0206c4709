import ColdFire.Text.Blank

namespace ColdFire.ControlRegister

def table : List (UInt16 × String) :=
  [(0x002, "cacr"), (0x003, "asid"), (0x004, "acr0"), (0x005, "acr1"), (0x006, "acr2"),
   (0x007, "acr3"), (0x008, "mmubar"), (0x801, "vbr"), (0xC00, "rombar0"), (0xC01, "rombar1"),
   (0xC04, "rambar0"), (0xC05, "rambar1"), (0xC0F, "mbar")]

def vbr : UInt16 := 0x801

def name? (code : UInt16) : Option String :=
  (table.find? fun entry => entry.1 == code).map (·.2)

def code? (name : String) : Option UInt16 :=
  (table.find? fun entry => entry.2.toList == Text.lower name.toList).map (·.1)

def position? (code : UInt16) : Option (Fin 13) :=
  match table.findIdx? fun entry => entry.1 == code with
  | some i => if h : i < 13 then some ⟨i, h⟩ else none
  | none => none

end ColdFire.ControlRegister
