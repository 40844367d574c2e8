/-
# Sentinel — calls that stand guard

A sentinel is a function without a body. A call of one stands directly before the
instruction it guards and carries the condition under which that instruction goes
wrong: an overflow sentinel takes the operation, its two operands and whether the
signed range counts; a fault sentinel takes the condition itself. Sentinels are
recognised by how their name begins.
-/
import Faultline.IR.Assembly.Literal

namespace Faultline.Sentinel

open IR (Module ValueId)
open Text (Bytes utf8)

def overflowStem : String := "__kint_overflow"

def faultStem : String := "__kint_shift_div"

/-- Operations an overflow sentinel may guard. -/
inductive Guarded where
  | add | sub | mul
  deriving DecidableEq, Inhabited

def Guarded.code : Guarded → Int
  | .add => 13
  | .sub => 15
  | .mul => 17

def Guarded.ofCode? (n : Int) : Option Guarded :=
  if n = 13 then some .add else if n = 15 then some .sub else if n = 17 then some .mul else none

theorem Guarded.ofCode?_code (g : Guarded) : Guarded.ofCode? g.code = some g := by
  cases g <;> rfl

inductive Kind where
  | overflow
  | fault
  deriving DecidableEq, Inhabited

def kindOf? (name : Bytes) : Option Kind :=
  if (utf8 overflowStem).isPrefixOf name then some .overflow
  else if (utf8 faultStem).isPrefixOf name then some .fault
  else none

/-- The name of the function a call calls directly; empty for any other callee. -/
def calleeName (m : Module) (callee : ValueId) : Bytes :=
  match m.get? callee with
  | some (.func n _) => n.plain
  | _ => []

def isCall (m : Module) (v : ValueId) : Bool :=
  match m.get? v with
  | some (.inst _ _ (.call c) _) => (kindOf? (calleeName m c.callee)).isSome
  | _ => false

end Faultline.Sentinel
