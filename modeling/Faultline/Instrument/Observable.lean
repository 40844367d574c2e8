/-
# Instrument.Observable — whether anything depends on a result

An instruction is speculatable when executing it has no effect and cannot trap, so
that only its result can matter. A result is observable when some instruction or
terminator that is not speculatable depends on it, directly or through speculatable
ones.

`observable` walks the users from the result on, the last of them first.
-/
import Faultline.Analysis.Value

namespace Faultline.Instrument

open IR (Module ValueId Inst)
open Faultline.Flow (Graph)

def isNonZero (m : Module) (v : ValueId) : Bool :=
  match m.get? v with
  | some (.const _ (.int n)) => n != 0
  | _ => false

def isAllOnes (m : Module) (v : ValueId) : Except Fault Bool := do
  pure ((← Analysis.constIndex m v) == some (-1))

def isSpeculatableInst (m : Module) : Inst ValueId → Except Fault Bool
  | .arith .udiv _ _ y | .arith .urem _ _ y => .ok (isNonZero m y)
  | .arith .sdiv _ _ y | .arith .srem _ _ y =>
    if isNonZero m y then (isAllOnes m y).map not else .ok false
  | .arith _ _ _ _ | .icmp _ _ _ | .cast _ _ _ | .gep _ _ _ _ | .select _ _ _ _
  | .extractValue _ _ => .ok true
  | .phi _ _ _ | .call _ => .ok false
  | .other isPure _ => .ok isPure

def isSpeculatable (m : Module) (v : ValueId) : Except Fault Bool :=
  match m.get? v with
  | some (.inst _ _ i _) => isSpeculatableInst m i
  | _ => .ok false

/-- Whether the users on the stack, or those that depend on them, include one that is not
speculatable. -/
def observableFrom (m : Module) (g : Graph) : Nat → Std.HashSet ValueId → List ValueId → Except Fault Bool
  | 0, _, _ => .ok false
  | _, _, [] => .ok false
  | fuel + 1, seen, u :: stack =>
    if seen.contains u then observableFrom m g fuel seen stack
    else match isSpeculatable m u with
      | .error e => .error e
      | .ok false => .ok true
      | .ok true => observableFrom m g fuel (seen.insert u) ((g.usersOf u).reverse ++ stack)

def useCount (m : Module) (g : Graph) : Nat :=
  (g.func.blocks.toList.flatMap fun b =>
    (b.insts.toList ++ b.term.toList).flatMap fun v => Graph.operandsOf m v).length

def observable (m : Module) (g : Graph) (v : ValueId) : Except Fault Bool :=
  observableFrom m g (2 * useCount m g + 1) ∅ (g.usersOf v).reverse

end Faultline.Instrument
