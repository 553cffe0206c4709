import ColdFire.Text.Number

namespace ColdFire

inductive RecordFlaw where
  | afterEnd
  | noMark (mark : Char)
  | noType
  | nonAscii
  | oddDigits
  | badDigits (pair : List Char)
  | short
  | dataLength (said found : Nat)
  | typeLength (type : UInt8) (needed : Nat)
  | countByte (said : Nat)
  | recordCount (said found : UInt32)
deriving DecidableEq

def RecordFlaw.message : RecordFlaw → String
  | .afterEnd => "data after end-of-file record"
  | .noMark mark => s!"record does not start with '{mark}'"
  | .noType => "missing record type"
  | .nonAscii => "non-ASCII characters"
  | .oddDigits => "odd number of hex digits"
  | .badDigits pair => s!"bad hex digits `{String.ofList pair}`"
  | .short => "record too short"
  | .dataLength said found => s!"length byte says {said} data bytes, record has {found}"
  | .typeLength type needed =>
    s!"record type {String.ofList (Text.upperHexDigits 2 type.toNat)} needs {needed} data bytes"
  | .countByte said => s!"count byte {said} does not match the record"
  | .recordCount said found => s!"record count {said} but {found} data records seen"

/-- Lines count from 1. -/
inductive LoadError where
  | malformed (line : Nat) (text : List Char) (flaw : RecordFlaw)
  | checksum (line : Nat) (expected found : UInt8)
  | recordType (line : Nat) (type : String)
  | missingEnd
deriving DecidableEq

namespace LoadError

def message : LoadError → String
  | malformed line text flaw => s!"line {line}: {flaw.message} in `{String.ofList text}`"
  | checksum line expected found =>
    s!"line {line}: checksum {Text.hex 2 found.toNat}, expected {Text.hex 2 expected.toNat}"
  | recordType line type => s!"line {line}: unsupported record type `{type}`"
  | missingEnd => "missing end-of-file record"

def line? : LoadError → Option Nat
  | malformed line _ _ => some line
  | checksum line _ _ => some line
  | recordType line _ => some line
  | missingEnd => none

end LoadError

end ColdFire
