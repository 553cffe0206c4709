import ColdFire.Text.Blank

namespace ColdFire

inductive FileFormat where
  | intelHex
  | sRecord
  | raw
deriving DecidableEq

namespace FileFormat

/-- The last part of a path that names something; dots that stand for the same place do not. -/
def fileName? (path : String) : Option (List Char) :=
  let parts := (Text.pieces (· == '/') path.toList).filter fun part =>
    !part.isEmpty && part != ['.']
  parts.getLast?.filter (· != ['.', '.'])

/-- What follows the last dot of a file's name. A dot in front does not start an extension. -/
def extension? (path : String) : Option (List Char) :=
  (fileName? path).bind fun name =>
    (Text.cutAtLast? (· == '.') name).bind fun (before, after) =>
      -- A name that starts with its only dot has no extension.
      if before.isEmpty then none else some after

def ofExtension? (extension : List Char) : Option FileFormat :=
  match String.ofList (Text.lower extension) with
  | "hex" | "ihex" | "ihx" => some intelHex
  | "srec" | "s19" | "s28" | "s37" | "mot" => some sRecord
  | "bin" => some raw
  | _ => none

def ofHead : List UInt8 → FileFormat
  | 0x3A :: _ => intelHex
  | 0x53 :: digit :: _ => if 0x30 ≤ digit ∧ digit ≤ 0x39 then sRecord else raw
  | _ => raw

/-- The extension decides if it is known, else the first bytes. -/
def detect (path : String) (head : List UInt8) : FileFormat :=
  ((extension? path).bind ofExtension?).getD (ofHead head)

end FileFormat

end ColdFire
