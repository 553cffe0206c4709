import ColdFire.Assembly.SyntaxError
import ColdFire.Text.Blank
import ColdFire.Text.Radix

namespace ColdFire.Assembly

/-- The value of a symbol, if there is one, plus a number. Sums of 64 bits wrap around. -/
structure Expression where
  symbol : Option String
  addend : Int64
deriving DecidableEq

structure Term where
  negated : Bool
  text : List Char
deriving DecidableEq

namespace Expression

def ofInt (v : Int) : Expression := ⟨none, .ofInt v⟩

def offset (e : Expression) : Int := e.addend.toInt

def isLetter (c : Char) : Bool := c.isAlpha || c == '_' || c == '.'

def isSymbol : List Char → Bool
  | [] => false
  | c :: rest => isLetter c && rest.all fun d => isLetter d || d.isDigit

def afterAny? (marks : List String) (cs : List Char) : Option (List Char) :=
  marks.findSome? fun mark => Text.afterMark? mark.toList cs

def inQuotes? (cs : List Char) : Option (List Char) :=
  (Text.afterMark? ['\''] cs).bind (Text.beforeMark? ['\''])

/-- A number: hexadecimal, binary or decimal digits, or one ASCII character in quotes. A sign may
stand between a mark and its digits. -/
def number? (cs : List Char) : Option Int :=
  let cs := Text.trim cs
  match afterAny? ["$", "0x", "0X"] cs, afterAny? ["%", "0b", "0B"] cs, inQuotes? cs with
  | some digits, _, _ => Text.readInt64? 16 digits
  | none, some digits, _ => Text.readInt64? 2 digits
  | none, none, some [c] => if c.toNat < 0x80 then some c.toNat else none
  | none, none, some _ => none
  | none, none, none =>
    match cs with
    | c :: _ => if c.isDigit then Text.readInt64? 10 cs else none
    | [] => none

/-- The terms of a sum. Signs with nothing between them make one sign; none counts in quotes. The
term so far is `held`, its last character first. -/
def termsFrom (negated quoted : Bool) (held : List Char) : List Char → List Term
  | [] => [⟨negated, Text.trim held.reverse⟩]
  | c :: cs =>
    if c == '\'' then termsFrom negated (!quoted) (c :: held) cs
    else if (c == '+' || c == '-') && !quoted then
      let text := Text.trim held.reverse
      -- A sign with no term in front of it belongs to the term that follows.
      if text.isEmpty then termsFrom (negated ^^ (c == '-')) false [] cs
      else ⟨negated, text⟩ :: termsFrom (c == '-') false [] cs
    else termsFrom negated quoted (c :: held) cs

def terms (cs : List Char) : List Term := termsFrom false false [] cs

def addTerm (whole : List Char) (e : Expression) (term : Term) : Except SyntaxError Expression :=
  if term.text.isEmpty then .error (.danglingOperator whole)
  else
    match number? term.text with
    | some v =>
      let v := Int64.ofInt v
      .ok { e with addend := if term.negated then e.addend - v else e.addend + v }
    | none =>
      if isSymbol term.text then
        if term.negated then .error (.negatedSymbol term.text)
        else if e.symbol.isSome then .error (.twoSymbols whole)
        else .ok { e with symbol := some (String.ofList term.text) }
      else .error (.badTerm term.text)

def parse (cs : List Char) : Except SyntaxError Expression :=
  let cs := Text.trim cs
  if cs.isEmpty then .error .emptyExpression
  else (terms cs).foldlM (addTerm cs) (ofInt 0)

end Expression

end ColdFire.Assembly
