import ColdFire.Assembly.AssemblyError
import ColdFire.Assembly.Expression
import Std.Data.ExtTreeMap

namespace ColdFire.Assembly

abbrev Symbols := Std.ExtTreeMap String UInt32 compare

structure Value where
  value : Int64
  /-- False if the value stands in for that of a symbol that is not defined yet. -/
  known : Bool
deriving DecidableEq

/-- The low 32 bits, as an address or as data. -/
def Value.long (v : Value) : UInt32 := v.value.toUInt64.toUInt32

def widen (v : UInt32) : Int64 := v.toUInt64.toInt64

structure Scope where
  symbols : Symbols
  /-- Whether a symbol without a definition is an error. -/
  strict : Bool
  line : Nat

namespace Scope

def flawed (s : Scope) (flaw : SyntaxError) : AssemblyError := .badSyntax s.line flaw

/-- Where a symbol is not defined and that is no error, the expression counts as 1. -/
def eval (s : Scope) (e : Expression) : Except AssemblyError Value :=
  match e.symbol with
  | none => .ok ⟨e.addend, true⟩
  | some name =>
    match s.symbols[name]? with
    | some addr => .ok ⟨widen addr + e.addend, true⟩
    | none => if s.strict then .error (.undefined s.line name) else .ok ⟨1, false⟩

def evalWithin (s : Scope) (e : Expression) (low high : Int64) (what : String) :
    Except AssemblyError Value := do
  let v ← s.eval e
  if low ≤ v.value ∧ v.value ≤ high then return v
  else throw (s.flawed (.outOfRange what v.value low high))

end Scope

end ColdFire.Assembly
