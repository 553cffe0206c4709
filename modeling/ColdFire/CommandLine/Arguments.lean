import ColdFire.Text.Blank
import ColdFire.Text.Radix

namespace ColdFire

structure Switch where
  long : String
  short : Option Char := none
  takesValue : Bool := true
  repeatable : Bool := false

structure Arguments where
  /-- The options by their long names, with their values, in order. -/
  given : List (String × String) := []
  operands : List String := []
  /-- A command and what follows it. -/
  command : Option (String × List String) := none

namespace Arguments

def addOption (a : Arguments) (s : Switch) (value : String) : Arguments :=
  { a with given := a.given ++ [(s.long, value)] }

def addOperand (a : Arguments) (operand : String) : Arguments :=
  { a with operands := a.operands ++ [operand] }

/-- An argument that can be the value of an option: it is not an option itself. -/
def isValue (arg : String) : Bool :=
  match arg.toList with
  | '-' :: _ :: _ => false
  | _ => true

inductive Reading where
  /-- Options without values, and perhaps one with its value. -/
  | done (options : List (Switch × String))
  /-- Options without values, and then one whose value is the next argument. -/
  | awaits (options : List (Switch × String)) (last : Switch)

def readLong (switches : List Switch) (body : List Char) : Option Reading :=
  let (name, value) := match Text.cutAt? (· == '=') body with
    | some (name, value) => (name, some value)
    | none => (body, none)
  match switches.find? fun s => s.long.toList == name, value with
  | none, _ => none
  | some s, some value => if s.takesValue then some (.done [(s, String.ofList value)]) else none
  | some s, none => some (if s.takesValue then .awaits [] s else .done [(s, "")])

/-- Short options in one argument; the one that takes a value is the last. -/
def readShort (switches : List Switch) : List Char → Option Reading
  | [] => some (.done [])
  | c :: rest => do
    let s ← switches.find? fun s => s.short == some c
    if s.takesValue then
      return match rest with
        | [] => .awaits [] s
        | '=' :: value => .done [(s, String.ofList value)]
        | value => .done [(s, String.ofList value)]
    else
      match ← readShort switches rest with
      | .done options => return .done ((s, "") :: options)
      | .awaits options last => return .awaits ((s, "") :: options) last

def readOption (switches : List Switch) (arg : String) : Option Reading :=
  match arg.toList with
  | '-' :: '-' :: body => readLong switches body
  | '-' :: body => readShort switches body
  | _ => none

/-- Sorts out arguments, behind those that make `a`. Behind two dashes all are operands. -/
def scanFrom (switches : List Switch) (commands : List String) (a : Arguments) :
    List String → Option Arguments
  | [] => some a
  | arg :: rest =>
    let add (options : List (Switch × String)) : Arguments :=
      options.foldl (fun a (s, value) => a.addOption s value) a
    if arg = "--" then some (rest.foldl addOperand a)
    else if isValue arg then
      -- What follows a command is the command's own.
      if commands.contains arg then some { a with command := some (arg, rest) }
      else scanFrom switches commands (a.addOperand arg) rest
    else
      match readOption switches arg with
      | none => none
      | some (.done options) => scanFrom switches commands (add options) rest
      | some (.awaits options last) =>
        match rest with
        | [] => none
        | value :: rest =>
          if isValue value then
            scanFrom switches commands ((add options).addOption last value) rest
          else none

def values (a : Arguments) (long : String) : List String :=
  (a.given.filter (·.1 == long)).map (·.2)

/-- Sorts out arguments. An option that is not repeatable is given at most once. -/
def scan (switches : List Switch) (commands args : List String) : Option Arguments := do
  let a ← scanFrom switches commands {} args
  if switches.all fun s => s.repeatable || (a.values s.long).length ≤ 1 then return a else none

def flag (a : Arguments) (long : String) : Bool := !(a.values long).isEmpty

def option (a : Arguments) (long : String) (read : String → Option α) : Option (Option α) :=
  match a.values long with
  | [] => some none
  | s :: _ => (read s).map some

def optionOr (a : Arguments) (long : String) (read : String → Option α) (other : α) : Option α :=
  (a.option long read).map (·.getD other)

/-- A number of 32 bits, decimal or with a mark in front hexadecimal, with blanks around. -/
def word? (s : String) : Option UInt32 :=
  let cs := Text.trim s.toList
  let n := match (Text.afterMark? ['0', 'x'] cs).or (Text.afterMark? ['0', 'X'] cs) with
    | some digits => Text.readNat? 16 0x100000000 digits
    | none => Text.readNat? 10 0x100000000 cs
  n.map UInt32.ofNat

def count? (s : String) : Option Nat := Text.readNat? 10 0x10000000000000000 s.toList

def path? (s : String) : Option String := if s.isEmpty then none else some s

def oneOf (names : List (String × α)) (s : String) : Option α :=
  (names.find? (·.1 == s)).map (·.2)

end Arguments

end ColdFire
