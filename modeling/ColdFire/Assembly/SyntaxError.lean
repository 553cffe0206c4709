import ColdFire.Text.Number

namespace ColdFire.Assembly

inductive SyntaxError where
  | emptyExpression
  | danglingOperator (expression : List Char)
  | negatedSymbol (symbol : List Char)
  | twoSymbols (expression : List Char)
  | badTerm (term : List Char)
  | emptyOperand
  | badOperand (operand : List Char)
  | badIndexScale (scale : List Char)
  | badIndexSize (size : List Char)
  | badIndexRegister (name : List Char)
  | notAddressRegister (name : List Char)
  | tooManyComponents (operand : List Char)
  | badRegisterPair (operand : List Char)
  | badPreDec (operand : List Char)
  | badPostInc (operand : List Char)
  | registerAsAddress (name : List Char)
  | unknownDirective (word : List Char)
  | badSizeSuffix (suffix : List Char)
  | tooManyOperands (mnemonic : String)
  | outOfRange (what : String) (value low high : Int64)
  | notShortAddress (value : Int64)
  | pcIndexOutOfRange (displacement : Int64)
  | pcOutOfRange (displacement : Int64)
  | wideImmediate (value : Int64)
  | sizeChanged (mnemonic : String) (planned found : Nat)
deriving DecidableEq

namespace SyntaxError

def quoted (text : List Char) : String := s!"`{String.ofList text}`"

def hex64 (v : Int64) : String := Text.hex 1 v.toUInt64.toNat

def message : SyntaxError → String
  | emptyExpression => "empty expression"
  | danglingOperator e => s!"dangling operator in {quoted e}"
  | negatedSymbol name => s!"symbol {quoted name} cannot be subtracted"
  | twoSymbols e => s!"more than one symbol in {quoted e}"
  | badTerm term => s!"bad term {quoted term}"
  | emptyOperand => "empty operand"
  | badOperand operand => s!"bad operand {quoted operand}"
  | badIndexScale scale => s!"bad index scale {quoted scale}"
  | badIndexSize size => "bad index size " ++ quoted ('.' :: size)
  | badIndexRegister name => s!"bad index register {quoted name}"
  | notAddressRegister name => s!"{quoted name} is not an address register"
  | tooManyComponents operand => s!"too many components in {quoted operand}"
  | badRegisterPair operand => s!"bad register pair {quoted operand}"
  | badPreDec operand => s!"bad predecrement {quoted operand}"
  | badPostInc operand => s!"bad postincrement {quoted operand}"
  | registerAsAddress name => s!"register {quoted name} used as an absolute address"
  | unknownDirective word => s!"unknown directive {quoted word}"
  | badSizeSuffix suffix => "bad size suffix " ++ quoted ('.' :: suffix)
  | tooManyOperands mnemonic => s!"{mnemonic}: too many operands"
  | outOfRange what value low high => s!"{what} {value} out of range {low}..={high}"
  | notShortAddress value => s!"address {hex64 value} does not fit .w"
  | pcIndexOutOfRange displacement => s!"pc index displacement {displacement} out of range"
  | pcOutOfRange displacement => s!"pc displacement {displacement} out of range"
  | wideImmediate value => s!"immediate {value} does not fit 32 bits"
  | sizeChanged mnemonic planned found =>
    s!"{mnemonic}: size changed from {planned} to {found} bytes"

end SyntaxError

end ColdFire.Assembly
