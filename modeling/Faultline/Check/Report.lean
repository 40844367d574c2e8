/-
# Check.Report — a possible integer error

A report names the place of a sentinel call whose condition can hold, the
instruction it guards and an assignment under which it holds.
-/
import Faultline.IR.Basic
import Faultline.Solver

namespace Faultline.Check

open IR (Module ValueId)

inductive Kind where
  | overflow
  | shift
  | division
  /-- The instruction is of none of the classes. -/
  | other (code : Int)
  deriving DecidableEq, Inhabited

namespace Kind

def name : Kind → String
  | overflow => "overflow"
  | shift => "shift"
  | division => "division"
  | other n => s!"Kind<{n}>"

/-- Kinds have numbers from one on. -/
def ofCode (n : Int) : Kind :=
  if n = 1 then overflow else if n = 2 then shift else if n = 3 then division else other n

/-- The kind of error an instruction can make. -/
def ofValue (m : Module) (v : ValueId) : Kind :=
  match m.get? v with
  | some (.inst _ _ (.arith op _ _ _) _) =>
    match op with
    | .add | .sub | .mul => overflow
    | .shl | .lshr | .ashr => shift
    | .udiv | .sdiv => division
    | _ => other 0
  | _ => other 0

end Kind

/-- A formula that was asked about, with its arena at that time. -/
structure Question where
  arena : Formula.Arena := {}
  formula : Formula.Handle := 0

structure Report where
  module : String
  function : String
  /-- Empty for an unnamed block. -/
  block : String
  kind : Kind := .other 0
  /-- The guarded instruction. -/
  inst : String
  model : Model := []
  question : Question := {}

namespace Report

def title : String := "Possible integer error"

def location (r : Report) : String :=
  if r.block.isEmpty then r.module ++ "::" ++ r.function
  else r.module ++ "::" ++ r.function ++ "::" ++ r.block

def text (r : Report) : String :=
  title ++ ": " ++ r.location ++ ": " ++ r.inst

/-- For each variable by name, the value that every assignment with the error gives it, if they
agree. -/
def forced (r : Report) : List (String × Option Nat) :=
  (entailed r.question.arena r.question.formula r.model).map fun (f, v) =>
    (r.question.arena.varName f, v)

end Report

end Faultline.Check
