import ColdFire.Json.Skip

namespace ColdFire.Json

namespace Reader

def natural (bound : Nat) (kind : String) : Reader Nat := do
  let accept (n : Number) : Reader Nat :=
    match n with
    | .int v =>
      if 0 ≤ v ∧ v < bound then return v.toNat else failHere (.invalidValue n.shown kind)
    | .double .. => failHere (.invalidType n.shown kind)
  match ← peekToken with
  | none => failNext .endInValue
  | some b =>
    if b = byte '-' then
      skip
      accept (← number true)
    else if (digitValue b).isSome then accept (← number false)
    else wrongType kind

def text : Reader String := do
  match ← peekToken with
  | none => failNext .endInValue
  | some b =>
    if b = byte '"' then
      skip
      string
    else wrongType "a string"

def nextItem (first : Bool) : Reader Bool := do
  let item : Option UInt8 → Reader Bool
    | none => failNext .endInValue
    | some b => if b = byte ']' then failNext .trailingComma else return true
  match ← peekToken with
  | none => failNext .endInList
  | some b =>
    if b = byte ']' then return false
    else if first then return true
    else if b = byte ',' then
      skip
      item (← peekToken)
    else failNext .expectedListEnd

def listEnd : Reader Unit := do
  match ← peekToken with
  | none => failNext .endInList
  | some b =>
    if b = byte ']' then skip
    else if b = byte ',' then
      skip
      if (← peekToken) = some (byte ']') then failNext .trailingComma
      else failNext .trailingCharacters
    else failNext .trailingCharacters

def nextKey (first : Bool) : Reader Bool := do
  let key : Option UInt8 → Reader Bool
    | none => failNext .endInValue
    | some b =>
      if b = byte '"' then return true
      else if b = byte '}' then failNext .trailingComma
      else failNext .keyNotText
  match ← peekToken with
  | none => failNext .endInObject
  | some b =>
    if b = byte '}' then return false
    else if first then key (some b)
    else if b = byte ',' then
      skip
      key (← peekToken)
    else failNext .expectedObjectEnd

def objectEnd : Reader Unit := do
  match ← peekToken with
  | none => failNext .endInObject
  | some b =>
    if b = byte '}' then skip
    else if b = byte ',' then failNext .trailingComma
    else failNext .trailingCharacters

def key : Reader String := do
  skip
  string

def itemsFrom (item : Reader α) : Nat → Bool → Reader (List α)
  | 0, _ => return []
  | fuel + 1, first => do
    if ← nextItem first then
      let x ← item
      return x :: (← itemsFrom item fuel false)
    else return []

def list (item : Reader α) : Reader (List α) := do
  match ← peekToken with
  | none => failNext .endInValue
  | some b =>
    if b = byte '[' then
      skip
      let items ← itemsFrom item ((← remaining) + 1) true
      listEnd
      return items
    else wrongType "a sequence"

/-- The fields of an object from here on, each added to what is known. A field's reader may refuse;
where, is told by whoever reads the object. -/
def fieldsFrom (field : String → σ → Reader (Except Flaw σ)) :
    Nat → Bool → σ → Reader (Except Flaw σ)
  | 0, _, known => return .ok known
  | fuel + 1, first, known => do
    if ← nextKey first then
      match ← field (← key) known with
      | .error flaw => return .error flaw
      | .ok known => fieldsFrom field fuel false known
    else return .ok known

/-- Reads the end of a list or an object and gives what it holds. If that has been refused, the
place to name is behind the end if there is one. -/
def finish (close : Reader Unit) (content : Except Flaw α) : Reader α :=
  match content with
  | .ok x => do
    close
    return x
  | .error flaw => fun i =>
    match close i with
    | .ok _ after => failHere flaw after
    | .error _ after => failHere flaw after

def record (kind : String) (initial : σ) (field : String → σ → Reader (Except Flaw σ))
    (items : Reader (Except Flaw α)) (complete : σ → Except Flaw α) : Reader α := do
  match ← peekToken with
  | none => failNext .endInValue
  | some b =>
    if b = byte '[' then
      skip
      finish listEnd (← items)
    else if b = byte '{' then
      skip
      let known ← fieldsFrom field ((← remaining) + 1) true initial
      finish objectEnd (known.bind complete)
    else wrongType kind

def once (name : String) (known : Option α) (value : Reader α) : Reader (Except Flaw α) := do
  if known.isSome then return .error (.duplicateField name)
  else
    colon
    return .ok (← value)

def null : Reader Unit := do
  match ← peekToken with
  | none => failNext .endInValue
  | some b =>
    if b = byte 'n' then
      skip
      word "ull".toUTF8.toList
    else wrongType "unit"

def nameOf (read : String → Option α) (expected : String) : Reader α := do
  let name ← key
  match read name with
  | some x => return x
  | none => failHere (.unknownVariant name expected)

/-- A name among some as the key of an object, whose brace has been read and whose only value is
null. -/
def variantInObject (read : String → Option α) (expected : String) : Reader α := do
  let variant ← match ← peekToken with
    | none => failNext .endInObject
    | some b =>
      if b = byte '"' then nameOf read expected
      else if b = byte '}' then failNext .expectedValue
      else failNext .keyNotText
  colon
  null
  match ← peekToken with
  | none => failHere .endInObject
  | some b =>
    if b = byte '}' then
      skip
      return variant
    else failHere .expectedValue

def variantOf (read : String → Option α) (expected : String) : Reader α := do
  match ← peekToken with
  | none => failNext .endInValue
  | some b =>
    if b = byte '"' then nameOf read expected
    else if b = byte '{' then
      skip
      variantInObject read expected
    else failNext .expectedValue

def run (reader : Reader α) (text : String) : Except ReadError α :=
  let whole : Reader α := do
    let x ← reader
    match ← peekToken with
    | none => return x
    | some _ => failNext .trailingCharacters
  match whole ⟨Text.utf8Bytes text, {}⟩ with
  | .ok x _ => .ok x
  | .error e _ => .error e

end Reader

end ColdFire.Json
