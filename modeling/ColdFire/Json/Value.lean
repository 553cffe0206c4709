import ColdFire.Text.Number

namespace ColdFire.Json

inductive Value where
  | null
  | bool (b : Bool)
  | int (v : Int)
  | text (s : String)
  | list (items : List Value)
  | record (fields : List (String × Value))

namespace Value

def nat (n : Nat) : Value := int n

def ofOption (f : α → Value) : Option α → Value
  | some x => f x
  | none => null

/-- A character of a text. Only quotes, backslashes and control characters are escaped. -/
def escape (c : Char) : List Char :=
  match c.toNat with
  | 0x22 => ['\\', '"']
  | 0x5C => ['\\', '\\']
  | 0x08 => ['\\', 'b']
  | 0x09 => ['\\', 't']
  | 0x0A => ['\\', 'n']
  | 0x0C => ['\\', 'f']
  | 0x0D => ['\\', 'r']
  | n => if n < 0x20 then '\\' :: 'u' :: Text.hexDigits 4 n else [c]

def quoted (s : String) : String :=
  String.ofList ('"' :: s.toList.flatMap escape ++ ['"'])

def indent (depth : Nat) : String := String.ofList (List.replicate (2 * depth) ' ')

def enclosed (front back : String) (depth : Nat) (items : List String) : String :=
  if items.isEmpty then front ++ back
  else
    front ++ "\n" ++ String.intercalate ",\n" (items.map (indent (depth + 1) ++ ·)) ++ "\n" ++
      indent depth ++ back

mutual

def pretty (depth : Nat) : Value → String
  | null => "null"
  | bool b => if b then "true" else "false"
  | int v => toString v
  | text s => quoted s
  | list items => enclosed "[" "]" depth (prettyItems (depth + 1) items)
  | record fields => enclosed "\x7b" "\x7d" depth (prettyFields (depth + 1) fields)

def prettyItems (depth : Nat) : List Value → List String
  | [] => []
  | v :: rest => pretty depth v :: prettyItems depth rest

def prettyFields (depth : Nat) : List (String × Value) → List String
  | [] => []
  | (name, v) :: rest => (quoted name ++ ": " ++ pretty depth v) :: prettyFields depth rest

end

def render (v : Value) : String := pretty 0 v

end Value

end ColdFire.Json
