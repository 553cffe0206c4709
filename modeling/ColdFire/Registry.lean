import ColdFire.Catalogue
import ColdFire.Instruction.Decode
import ColdFire.Instruction.Plan

namespace ColdFire

/-- A definition and its position in its registry. -/
abbrev Entry := Definition × Nat

structure Registry where
  entries : List Entry
  /-- For each value of the top four bits, the definitions that may claim a word with them, the most
  specific first. -/
  buckets : Vector (List Entry) 16

namespace Registry

/-- Whether the fixed bits of a definition allow a value of the top four bits. -/
def mayStart (d : Definition) (nibble : Nat) : Bool :=
  ((UInt16.ofNat nibble <<< 12) ^^^ d.opcode) &&& ~~~d.operandMask &&& 0xF000 == 0

/-- Definitions of equal specificity keep their order. -/
def mostSpecificFirst (entries : List Entry) : List Entry :=
  entries.mergeSort fun e f => f.1.specificity ≤ e.1.specificity

def ofList (definitions : List Definition) : Registry :=
  let entries := definitions.zipIdx
  { entries := entries
    buckets := .ofFn fun nibble =>
      mostSpecificFirst (entries.filter fun e => mayStart e.1 nibble) }

def full : Registry := ofList Catalogue.all

def size (r : Registry) : Nat := r.entries.length

def bucket (r : Registry) (word : UInt16) : List Entry :=
  r.buckets.get ⟨(word >>> 12).toNat % 16, Nat.mod_lt _ (by decide)⟩

/-- The most specific definition that claims a word on a tier. -/
def lookup (r : Registry) (word : UInt16) (tier : Tier) : Option Entry :=
  (r.bucket word).find? fun e => e.1.claims word tier

/-- Decodes an instruction; `none` if no definition claims the opcode word or if the extension words
hold a reserved encoding. -/
def decode (r : Registry) (tier : Tier) : Decoder (Option Decoded) := fun source cursor =>
  match r.lookup source.opcode tier with
  | none => .ok none cursor
  | some (d, _) =>
    match d.decode source cursor with
    | .ok decoded after => .ok (some decoded) after
    -- A reserved encoding is no instruction, but it is no failure either.
    | .error (.reserved ..) after => .ok none after
    | .error t after => .error t after

def conflict? (r : Registry) (word : UInt16) (tier : Tier) : Option (Definition × Definition) :=
  match (r.bucket word).filter fun e => e.1.claims word tier with
  -- A third claimant is no more specific than the second.
  | first :: second :: _ =>
    if second.1.specificity = first.1.specificity then some (first.1, second.1) else none
  | _ => none

/-- Checks that on every tier no word is claimed by two definitions of the same specificity. -/
def verify (r : Registry) : Except LogicError Unit :=
  Tier.all.forM fun tier =>
    (List.range 0x10000).forM fun n =>
      let word := UInt16.ofNat n
      match r.conflict? word tier with
      | some (first, second) => .error (.ambiguous word tier first.mnemonic second.mnemonic)
      | none => .ok ()

def named (r : Registry) (name : String) : List Entry :=
  r.entries.filter fun e => e.1.answersTo name

/-- The error to report after another form has failed: a complaint about the size gives way to
whatever comes later. -/
def laterError (first : Option EncodeError) (next : EncodeError) : EncodeError :=
  match first with
  | none => next
  | some e => if e.aboutSize then next else e

/-- The first of some forms that can represent `ops`, or what speaks against them. -/
def firstForm (name : String) (ops : Operands) (noForm : EncodeError) :
    Option EncodeError → List Entry → Except EncodeError (Entry × Encoding)
  | failed, [] => .error (failed.getD noForm)
  | failed, e :: rest =>
    match e.1.plan name ops with
    | .ok encoding => .ok (e, encoding)
    | .error err => firstForm name ops noForm (some (laterError failed err)) rest

def choose (r : Registry) (name : String) (ops : Operands) (tier : Tier) :
    Except EncodeError (Entry × Encoding) :=
  match r.named name with
  | [] => .error (.unknownMnemonic name)
  | forms => firstForm name ops (.notInTier name tier) none (forms.filter (·.1.tier ≤ tier))

def select (r : Registry) (name : String) (ops : Operands) (tier : Tier) :
    Except EncodeError Entry :=
  return (← r.choose name ops tier).1

def calcSize (r : Registry) (name : String) (ops : Operands) (tier : Tier) :
    Except EncodeError Nat :=
  return (← r.choose name ops tier).2.length

def encode (r : Registry) (name : String) (ops : Operands) (tier : Tier) :
    Except EncodeError (List UInt16) := do
  (← r.choose name ops tier).2.words

/-- The smallest displacement size at which some form of `name` on a tier can branch by `offset`. -/
def branchSize? (r : Registry) (name : String) (offset : Int32) (tier : Tier) : Option Size :=
  [Size.byte, .word, .long].find? fun size =>
    (r.named name).any fun e => e.1.tier ≤ tier && e.1.format.branches offset (some size)

end Registry

end ColdFire
