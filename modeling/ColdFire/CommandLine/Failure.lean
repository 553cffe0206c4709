import ColdFire.Assembly.AssemblyError
import ColdFire.Fault
import ColdFire.ObjectFile.LoadError

namespace ColdFire

/-- A message, and what caused it, the nearest cause first. -/
structure Failure where
  message : String
  causes : List String := []
deriving DecidableEq

namespace Failure

def within (doing : String) (f : Failure) : Failure := ⟨doing, f.message :: f.causes⟩

def ofTrap (t : Trap) : Failure :=
  match t with
  | .bus _ cause => ⟨t.message, [cause]⟩
  | _ => ⟨t.message, []⟩

def ofAssembly (e : AssemblyError) : Failure :=
  match e with
  | .encode _ cause => ⟨e.message, [cause.message]⟩
  | _ => ⟨e.message, []⟩

/-- The lines of a cause: `lead` in front of the first, as many blanks in front of the others. -/
def causeLines (lead : String) (cause : String) : List String :=
  let pad := String.ofList (List.replicate lead.length ' ')
  match (Text.pieces (· == '\n') cause.toList).map String.ofList with
  | [] => [lead]
  | first :: others => (lead ++ first) :: others.map (pad ++ ·)

def leadOf (several : Bool) (i : Nat) : String :=
  if several then Text.columnRight 5 (toString i) ++ ": " else "    "

def text (f : Failure) : String :=
  let lines := f.causes.zipIdx.flatMap fun (cause, i) =>
    causeLines (leadOf (f.causes.length > 1) i) cause
  let more := if lines.isEmpty then [] else "" :: "Caused by:" :: lines
  String.intercalate "\n" (("Error: " ++ f.message) :: more) ++ "\n"

end Failure

end ColdFire
