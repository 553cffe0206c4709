import ColdFire.CommandLine.Dispatch

namespace ColdFire.Main

def systemReason : IO.Error → String
  | .noFileOrDirectory _ code _ => s!"No such file or directory (os error {code})"
  | .permissionDenied _ code _ => s!"Permission denied (os error {code})"
  | .inappropriateType _ code reason => s!"{reason} (os error {code})"
  | .invalidArgument _ code reason => s!"{reason} (os error {code})"
  | e => toString e

def attempt (action : IO α) : IO (Except String α) := do
  match ← action.toBaseIO with
  | .ok x => return .ok x
  | .error e => return .error (systemReason e)

instance : Host IO where
  loadFile path := attempt do return (← IO.FS.readBinFile path).toList
  saveFile path bytes := attempt (IO.FS.writeBinFile path ⟨bytes.toArray⟩)
  print := IO.print
  printError := IO.eprint

end ColdFire.Main

def main (args : List String) : IO UInt32 :=
  match args with
  | name :: rest => ColdFire.CommandLine.run name rest
  | [] => ColdFire.CommandLine.run "" []
