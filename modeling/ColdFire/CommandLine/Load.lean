import ColdFire.CommandLine.Arguments
import ColdFire.CommandLine.Tool
import ColdFire.ObjectFile.FileFormat
import ColdFire.ObjectFile.IntelHex
import ColdFire.ObjectFile.SRecord

namespace ColdFire

structure Extract where
  skip : Nat := 0
  length : Option Nat := none

structure Source where
  path : String
  format : Option FileFormat
  /-- Where bytes without addresses go. -/
  base : UInt32

namespace Source

def formats : List (String × FileFormat) :=
  [("intel-hex", .intelHex), ("s-record", .sRecord), ("raw", .raw)]

def switches : List Switch := [⟨"format", none, true, false⟩, ⟨"base", none, true, false⟩]

def ofArguments? (a : Arguments) : Option Source :=
  match a.operands with
  | [path] => do
    return ⟨← Arguments.path? path, ← a.option "format" (Arguments.oneOf formats),
      ← a.optionOr "base" Arguments.word? 0⟩
  | _ => none

def parse (format : FileFormat) (base : UInt32) (bytes : List UInt8) : Except LoadError Image :=
  match format with
  | .raw => .ok (Image.ofBytes base bytes)
  | .intelHex => IntelHex.parse (Text.ofUtf8Lossy bytes)
  | .sRecord => SRecord.parse (Text.ofUtf8Lossy bytes)

variable {m : Type → Type} [Monad m] [Host m]

def load (s : Source) : Tool m Image :=
  Tool.doing s!"loading {s.path}" do
    let bytes ← Tool.readFile s.path
    let format := s.format.getD (FileFormat.detect s.path bytes)
    Tool.orFail (fun e => ⟨e.message, []⟩) (parse format s.base bytes)

/-- Loads a part of a file, whose bytes are taken as they are. -/
def loadPart (s : Source) (part : Extract) : Tool m Image :=
  Tool.doing s!"loading {s.path}" do
    let bytes ← Tool.readFile s.path
    Tool.require (part.skip ≤ bytes.length) "skip exceeds file size"
    let rest := bytes.drop part.skip
    let length := part.length.getD rest.length
    Tool.require (length ≤ rest.length) "length exceeds remaining file size after skip"
    return Image.ofBytes s.base (rest.take length)

end Source

end ColdFire
