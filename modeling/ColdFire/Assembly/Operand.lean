import ColdFire.Assembly.Expression
import ColdFire.ControlRegister
import ColdFire.Operand.Basic

namespace ColdFire.Assembly

inductive Operand where
  | dataReg (reg : UInt8)
  | addrReg (reg : UInt8)
  | indirect (reg : UInt8)
  | postInc (reg : UInt8)
  | preDec (reg : UInt8)
  | disp (e : Expression) (reg : UInt8)
  | index (e : Expression) (reg : UInt8) (ix : IndexReg)
  | absShort (e : Expression)
  | absLong (e : Expression)
  /-- An expression alone: an address, or where a branch leads. -/
  | bare (e : Expression)
  | pcDisp (e : Expression)
  | pcIndex (e : Expression) (ix : IndexReg)
  | immediate (e : Expression)
  | regList (mask : UInt16)
  | regPair (w x : UInt8)
  | special (reg : SpecialReg)
deriving DecidableEq

structure Register where
  addr : Bool
  number : UInt8
deriving DecidableEq

namespace Register

def number? (c : Char) : Option UInt8 :=
  if '0' ≤ c ∧ c ≤ '7' then some (UInt8.ofNat (c.toNat - '0'.toNat)) else none

def ofName? : List Char → Option Register
  | ['s', 'p'] => some ⟨true, 7⟩
  | ['f', 'p'] => some ⟨true, 6⟩
  | ['d', n] => (number? n).map (⟨false, ·⟩)
  | ['a', n] => (number? n).map (⟨true, ·⟩)
  | _ => none

def address? (name : List Char) : Option UInt8 :=
  (ofName? name).bind fun r => if r.addr then some r.number else none

def bit (r : Register) : Nat := (if r.addr then 8 else 0) + r.number.toNat

end Register

namespace Operand

/-- The pieces between commas that stand outside parentheses and quotes. The piece so far is `held`,
its last character first. -/
def splitFrom (depth : Int32) (quoted : Bool) (held : List Char) : List Char → List (List Char)
  | [] => [Text.trim held.reverse]
  | c :: cs =>
    if c == '\'' then splitFrom depth (!quoted) (c :: held) cs
    else if quoted then splitFrom depth quoted (c :: held) cs
    else if c == '(' then splitFrom (depth + 1) quoted (c :: held) cs
    else if c == ')' then splitFrom (depth - 1) quoted (c :: held) cs
    else if c == ',' && depth == 0 then Text.trim held.reverse :: splitFrom depth quoted [] cs
    else splitFrom depth quoted (c :: held) cs

def split (cs : List Char) : List (List Char) :=
  match splitFrom 0 false [] cs with
  | [[]] => []
  | pieces => pieces

def scale? : List Char → Option UInt8
  | ['1'] => some 1
  | ['2'] => some 2
  | ['4'] => some 4
  | ['8'] => some 8
  | _ => none

def readScale (cs : List Char) : Except SyntaxError (List Char × UInt8) :=
  match Text.cutAt? (· == '*') cs with
  | none => .ok (cs, 1)
  | some (reg, scale) =>
    let scale := Text.trim scale
    match scale? scale with
    | some n => .ok (Text.trim reg, n)
    | none => .error (.badIndexScale scale)

def readIndexSize (cs : List Char) : Except SyntaxError (List Char × Bool) :=
  match Text.cutAtLast? (· == '.') cs with
  | none => .ok (cs, true)
  | some (name, ['l']) => .ok (name, true)
  | some (name, ['w']) => .ok (name, false)
  | some (_, size) => .error (.badIndexSize size)

def readIndex (cs : List Char) : Except SyntaxError IndexReg := do
  let (reg, scale) ← readScale cs
  let (name, long) ← readIndexSize reg
  match Register.ofName? name with
  | some r => return ⟨r.addr, r.number, long, scale⟩
  | none => throw (.badIndexRegister name)

def range? (cs : List Char) : Option (Register × Register) :=
  match Text.cutAt? (· == '-') cs with
  | some (first, last) => do
    return (← Register.ofName? (Text.trim first), ← Register.ofName? (Text.trim last))
  | none => (Register.ofName? cs).map fun r => (r, r)

def rangeMask? (cs : List Char) : Option UInt16 := do
  let (first, last) ← range? cs
  if first.addr = last.addr ∧ first.number ≤ last.number then
    return (List.range (last.bit + 1 - first.bit)).foldl (fun mask k =>
      mask ||| (1 <<< UInt16.ofNat (first.bit + k))) 0
  else none

def listMask? (cs : List Char) : Option UInt16 :=
  (Text.pieces (· == '/') cs).foldlM (fun mask part =>
    (rangeMask? (Text.trim part)).map (mask ||| ·)) 0

def special? (name : List Char) : Option SpecialReg :=
  match String.ofList name with
  | "sr" => some .sr
  | "ccr" => some .ccr
  | "usp" => some .usp
  | "dc" => some (.cache 1)
  | "ic" => some (.cache 2)
  | "bc" => some (.cache 3)
  | name => (ControlRegister.code? name).map .control

def readIndexPart (operand : List Char) : List (List Char) → Except SyntaxError (Option IndexReg)
  | [] => .ok none
  | [part] => (readIndex (Text.lower part)).map some
  | _ => .error (.tooManyComponents operand)

def based (operand : List Char) (disp : Option Expression) (base : List Char)
    (more : List (List Char)) : Except SyntaxError Operand := do
  let ix ← readIndexPart operand more
  let offset := disp.getD (.ofInt 0)
  if Text.lower base = ['p', 'c'] then
    return match ix with
      | none => pcDisp offset
      | some ix => pcIndex offset ix
  else
    match Register.address? (Text.lower base) with
    | none => throw (.notAddressRegister base)
    | some reg =>
      return match ix, disp with
        | none, none => indirect reg
        | none, some e => .disp e reg
        | some ix, _ => index offset reg ix

def isBase (part : List Char) : Bool :=
  Text.lower part = ['p', 'c'] || (Register.address? (Text.lower part)).isSome

/-- What stands between the first opening parenthesis and the last character, and what in front. -/
def openParenthesis? (operand : List Char) : Option (List Char × List Char) :=
  (Text.cutAt? (· == '(') operand).map fun (front, inner) => (Text.trim front, inner.dropLast)

/-- An operand that ends in a parenthesis; the displacement stands in front of the parentheses or
first inside them. -/
def parenthesized (operand : List Char) : Except SyntaxError Operand :=
  match openParenthesis? operand with
  | none => .error (.badOperand operand)
  | some (front, inner) =>
    match (Text.pieces (· == ',') inner).map Text.trim with
    | [] => .error (.badOperand operand)
    | part :: more =>
      if !front.isEmpty then
        (Expression.parse front).bind fun e => based operand (some e) part more
      else if isBase part then based operand none part more
      else
        match more with
        | [] =>
          if (Register.ofName? (Text.lower part)).isSome then .error (.notAddressRegister part)
          else (Expression.parse part).map bare
        | base :: more =>
          (Expression.parse part).bind fun e => based operand (some e) base more

def between? (front back : String) (cs : List Char) : Option (List Char) :=
  (Text.afterMark? front.toList cs).bind (Text.beforeMark? back.toList)

/-- An absolute address, perhaps in parentheses, whose size suffix has been taken off. -/
def absolute (body : List Char) : Except SyntaxError Expression :=
  let body := Text.trim body
  let body := (between? "(" ")" body).getD body
  if (Register.ofName? (Text.lower body)).isSome then .error (.registerAsAddress body)
  else Expression.parse body

/-- An operand that is no immediate, no register and no pair or list of these. -/
def memory (operand : List Char) : Except SyntaxError Operand :=
  let lower := Text.lower operand
  match between? "-(" ")" lower, between? "(" ")+" lower with
  | some inner, _ =>
    match Register.address? (Text.trim inner) with
    | some reg => .ok (preDec reg)
    | none => .error (.badPreDec operand)
  | none, some inner =>
    match Register.address? (Text.trim inner) with
    | some reg => .ok (postInc reg)
    | none => .error (.badPostInc operand)
  | none, none =>
    -- Neither step nor register: a size suffix means an absolute address.
    let body := operand.take (operand.length - 2)
    if ".w".toList.isSuffixOf lower then (absolute body).map absShort
    else if ".l".toList.isSuffixOf lower then (absolute body).map absLong
    else if [')'].isSuffixOf operand then parenthesized operand
    else (Expression.parse operand).map bare

def listOf? (lower : List Char) : Option UInt16 :=
  if lower.contains '/' || lower.contains '-' then listMask? lower else none

def pair? (w x : List Char) : Option Operand :=
  match Register.ofName? (Text.trim w), Register.ofName? (Text.trim x) with
  | some ⟨false, w⟩, some ⟨false, x⟩ => some (regPair w x)
  | _, _ => none

def parsePlain (operand : List Char) : Except SyntaxError Operand :=
  let lower := Text.lower operand
  match Register.ofName? lower, special? lower, Text.cutAt? (· == ':') lower with
  | some ⟨addr, n⟩, _, _ => .ok (if addr then addrReg n else dataReg n)
  | none, some reg, _ => .ok (special reg)
  | none, none, some (w, x) =>
    match pair? w x with
    | some pair => .ok pair
    | none => .error (.badRegisterPair operand)
  | none, none, none =>
    match listOf? lower with
    | some mask => .ok (regList mask)
    | none => memory operand

def parse (cs : List Char) : Except SyntaxError Operand :=
  match Text.trim cs with
  | [] => .error .emptyOperand
  | '#' :: e => (Expression.parse e).map immediate
  | operand => parsePlain operand

end Operand

end ColdFire.Assembly
