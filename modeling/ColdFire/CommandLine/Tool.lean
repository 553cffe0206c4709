import ColdFire.CommandLine.Failure
import ColdFire.Text.Utf8

namespace ColdFire

/-- What a tool needs of its surroundings. Reading or writing a file may fail for a reason that is
given. -/
class Host (m : Type → Type) where
  loadFile : String → m (Except String (List UInt8))
  saveFile : String → List UInt8 → m (Except String Unit)
  print : String → m Unit
  printError : String → m Unit

abbrev Tool (m : Type → Type) := ExceptT Failure m

namespace Tool

variable {m : Type → Type} [Monad m]

def orFail (f : ε → Failure) : Except ε α → Tool m α
  | .ok x => pure x
  | .error e => throw (f e)

def require (condition : Bool) (message : String) : Tool m Unit :=
  if condition then pure () else throw ⟨message, []⟩

def doing (what : String) (tool : Tool m α) : Tool m α :=
  tryCatch tool fun f => throw (f.within what)

variable [Host m]

def print (s : String) : Tool m Unit := ExceptT.lift (Host.print s)

def printError (s : String) : Tool m Unit := ExceptT.lift (Host.printError s)

def readFile (path : String) : Tool m (List UInt8) := do
  orFail (⟨·, []⟩) (← ExceptT.lift (Host.loadFile path))

def readText (path : String) : Tool m String := do
  match Text.ofUtf8? (← readFile path) with
  | some s => return s
  | none => throw ⟨"stream did not contain valid UTF-8", []⟩

def writeFile (path : String) (bytes : List UInt8) : Tool m Unit :=
  doing s!"writing {path}" do
    orFail (⟨·, []⟩) (← ExceptT.lift (Host.saveFile path bytes))

def emit (path : Option String) (s : String) : Tool m Unit :=
  match path with
  | some path => writeFile path (Text.utf8Bytes s)
  | none => print s

/-- Runs a tool and gives its exit code. Without options, the arguments were wrong. -/
def exitCode (usage : String) (tool : α → Tool m Unit) (options : Option α) : m UInt32 := do
  match options with
  | none =>
    Host.printError usage
    return 2
  | some options =>
    match ← (tool options).run with
    | .ok _ => return 0
    | .error f =>
      Host.printError f.text
      return 1

end Tool

end ColdFire
