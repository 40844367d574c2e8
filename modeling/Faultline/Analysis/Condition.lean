/-
# Analysis.Condition — the condition a sentinel call carries

`condition` is the formula under which the guarded instruction goes wrong. A call
whose operation, flag or number of arguments makes no sense is refused.
-/
import Faultline.Analysis.Path
import Faultline.Sentinel

namespace Faultline.Analysis

open IR (ValueId)
open Text (Bytes)
open Formula (Handle)
open Sentinel (Guarded)

def overflow (op : Guarded) (withSign : Bool) (x y : Handle) : Formula.Build Handle :=
  match op, withSign with
  | .add, true => Formula.saddOverflow x y
  | .add, false => Formula.uaddOverflow x y
  | .sub, true => Formula.ssubOverflow x y
  | .sub, false => Formula.usubOverflow x y
  | .mul, true => Formula.smulOverflow x y
  | .mul, false => Formula.umulOverflow x y

/-- The condition of a call of the named function; the caller owns a reference to it. -/
def condition (s : Setting) (name : Bytes) (args : List ValueId) : Analyze Handle :=
  match Sentinel.kindOf? name with
  | some .overflow =>
    match args with
    | [code, x, y, flag] => do
      match ← constIndex s.module code with
      | none => throw (.sentinelOpcode (Text.shown name))
      | some code =>
        match ← constIndex s.module flag with
        | none => throw (.sentinelFlag (Text.shown name))
        | some flag =>
          let x ← lookup s x
          let y ← lookup s y
          match Guarded.ofCode? (word code) with
          | some op => build (overflow op (flag != 0) x y)
          | none => throw (.overflowOpcode code)
    | _ => throw (.sentinelArity (Text.shown name) args.length)
  | some .fault =>
    match args with
    | [cond] => value s cond
    | _ => throw (.faultSentinelArity (Text.shown name) args.length)
  | none => throw (.notSentinel (Text.shown name))

def conditionOf (s : Setting) (call : ValueId) : Analyze Handle :=
  match s.module.get? call with
  | some (.inst _ _ (.call c) _) => condition s (Sentinel.calleeName s.module c.callee) c.args
  | _ => throw (.notSentinel "")

end Faultline.Analysis
