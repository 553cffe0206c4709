import ColdFire.Assembly.Operand

namespace ColdFire.Assembly

inductive Statement where
  /-- Goes on at an address. -/
  | org (e : Expression)
  /-- Goes on at the next even address. -/
  | even
  | data (size : Size) (values : List Expression)
  | instruction (mnemonic : String) (size : Option Size) (operands : List Operand)
deriving DecidableEq

structure Line where
  number : Nat
  label : Option String
  statement : Option Statement
deriving DecidableEq

namespace Statement

def expressions (operands : List Char) : Except SyntaxError (List Expression) :=
  (Operand.split operands).mapM Expression.parse

def sizeOfSuffix (suffix : List Char) : Except SyntaxError Size :=
  match suffix with
  | [c] =>
    match Size.ofLetter? c with
    | some size => .ok size
    | none => .error (.badSizeSuffix suffix)
  | _ => .error (.badSizeSuffix suffix)

def readMnemonic (word : List Char) : Except SyntaxError (String × Option Size) :=
  match Text.cutAt? (· == '.') word with
  | none => .ok (String.ofList word, none)
  | some (mnemonic, suffix) =>
    (sizeOfSuffix suffix).map fun size => (String.ofList mnemonic, some size)

/-- A statement whose first word is in lower case. -/
def ofParts (word operands : List Char) : Except SyntaxError Statement :=
  match String.ofList word with
  | ".org" => (Expression.parse operands).map org
  | ".even" => .ok even
  | ".byte" | "dc.b" => (expressions operands).map (data .byte)
  | ".word" | "dc.w" => (expressions operands).map (data .word)
  | ".long" | "dc.l" => (expressions operands).map (data .long)
  | _ =>
    if ['.'].isPrefixOf word then .error (.unknownDirective word)
    else do
      let (mnemonic, size) ← readMnemonic word
      return instruction mnemonic size (← (Operand.split operands).mapM Operand.parse)

def parse (cs : List Char) : Except SyntaxError (Option Statement) :=
  if cs.isEmpty then .ok none
  else
    let (word, operands) := (Text.cutAt? Text.isBlank cs).getD (cs, [])
    (ofParts (Text.lower word) (Text.trim operands)).map some

end Statement

namespace Line

/-- What stands in front of a comment. A semicolon in quotes starts none. -/
def withoutComment (quoted : Bool) : List Char → List Char
  | [] => []
  | c :: cs =>
    if c == '\'' then c :: withoutComment (!quoted) cs
    else if c == ';' && !quoted then []
    else c :: withoutComment quoted cs

def splitLabel (cs : List Char) : Option String × List Char :=
  match Text.cutAt? (· == ':') cs with
  | none => (none, cs)
  | some (head, tail) =>
    let head := Text.trim head
    if Expression.isSymbol head then (some (String.ofList head), Text.trim tail) else (none, cs)

def parse (number : Nat) (text : List Char) : Except SyntaxError Line :=
  let (label, rest) := splitLabel (Text.trim (withoutComment false text))
  (Statement.parse rest).map fun statement => ⟨number, label, statement⟩

end Line

end ColdFire.Assembly
