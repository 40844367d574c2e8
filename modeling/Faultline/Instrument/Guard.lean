/-
# Instrument.Guard — what can go wrong, and the call that tells

A hazard says how an instruction can go wrong. `guard` turns it into the
instructions that stand before the guarded one: they compute the condition where
that is needed and end in one call of a sentinel of its own.

A sentinel is declared under a name that no function of the module has: the stem,
the name of the guarding function and the least number from which the name is free.
-/
import Faultline.Instrument.Observable
import Faultline.Sentinel
import Faultline.Tally

namespace Faultline.Instrument

open IR (Module ValueId Ty Def Inst trueId falseId)
open Sentinel (Guarded)
open Text (Bytes utf8)

/-! ## Hazards -/

/-- What can go wrong at an instruction on integers of the given type and bits. -/
inductive Hazard where
  | overflow (op : Guarded) (withSign : Bool) (type : Ty) (x y : ValueId)
  /-- The amount may reach the number of bits. -/
  | shift (type : Ty) (bits : Nat) (y : ValueId)
  | zeroDivisor (type : Ty) (y : ValueId)
  /-- Also the least number divided by minus one. -/
  | signedDivision (type : Ty) (bits : Nat) (x y : ValueId)
  deriving Inhabited

/-- The hazard of an instruction; only plain integers have one. -/
def hazard? (m : Module) : Inst ValueId → Option Hazard
  | .arith op flags x y =>
    let t := m.typeOf x
    match m.resolve t with
    | .int bits =>
      match op with
      | .add => some (.overflow .add (flags.contains "nsw") t x y)
      | .sub => some (.overflow .sub (flags.contains "nsw") t x y)
      | .mul => some (.overflow .mul (flags.contains "nsw") t x y)
      | .shl | .lshr | .ashr => some (.shift t bits y)
      | .udiv => some (.zeroDivisor t y)
      | .sdiv => some (.signedDivision t bits x y)
      | _ => none
    | _ => none
  | _ => none

def Hazard.tally : Hazard → InsertTally
  | .overflow _ _ _ _ _ => { overflow := 1 }
  | .shift _ _ _ => { shift := 1 }
  | .zeroDivisor _ _ | .signedDivision _ _ _ _ => { division := 1 }

/-! ## Building guards -/

/-- A module under instrumentation, with the names its functions have and the numbers tried
already for a name. -/
structure Draft where
  module : Module
  taken : Std.HashSet Bytes
  tried : Std.HashMap Bytes Nat := ∅

/-- A refusal keeps what has been declared. -/
abbrev Insert := ExceptT Fault (StateM Draft)

def Draft.ofModule (m : Module) : Draft :=
  { module := m, taken := m.funcs.foldl (fun names f => names.insert f.name) ∅ }

def newValue (d : Def ValueId) : Insert ValueId :=
  modifyGet fun s =>
    let (v, m) := s.module.addDef d
    (v, { s with module := m })

def newInst (t : Ty) (i : Inst ValueId) : Insert ValueId :=
  newValue (.inst (.number 0) t i [])

def newInt (t : Ty) (n : Int) : Insert ValueId :=
  newValue (.const t (.int n))

def numbered (base : Bytes) (n : Nat) : Bytes :=
  base ++ utf8 s!".{n}"

/-- The first number from `n` on that makes a free name. -/
def freeFrom (taken : Std.HashSet Bytes) (base : Bytes) : Nat → Nat → Nat
  | 0, n => n
  | fuel + 1, n => if taken.contains (numbered base n) then freeFrom taken base fuel (n + 1) else n

def declare (stem : String) (func : Bytes) (params : List (String × Ty)) : Insert ValueId := do
  let s ← get
  let base := utf8 (stem ++ ".") ++ func
  let n := freeFrom s.taken base (s.taken.size + 1) (s.tried.getD base 0)
  let name := numbered base n
  let ids ← params.mapM fun (x, t) => newValue (.param (.named (utf8 x)) t)
  let f ← newValue (.func (.named name) (.pointer (.func .void (params.map Prod.snd) false) 0))
  modify fun s =>
    { s with
      taken := s.taken.insert name
      tried := s.tried.insert base (n + 1)
      module := { s.module with
        funcs := s.module.funcs.push
          { id := f, name := name, result := .void, params := ids.map fun v => ⟨v, ""⟩ } } }
  pure f

def call (callee : ValueId) (args : List ValueId) : Insert ValueId :=
  newInst .void (.call ⟨"call", .void, callee, args, []⟩)

def compareInt (op : Formula.Compare) (x : ValueId) (t : Ty) (n : Int) : Insert ValueId := do
  newInst .bool (.icmp (.known op) x (← newInt t n))

def faultCall (func : Bytes) (cond : ValueId) : Insert ValueId := do
  call (← declare Sentinel.faultStem func [("cond", .bool)]) [cond]

/-- The instructions that guard against a hazard; the last one is the call. -/
def guard (func : Bytes) : Hazard → Insert (List ValueId)
  | .overflow op withSign t x y => do
    let callee ← declare Sentinel.overflowStem func
      [("op", .int 8), ("x", t), ("y", t), ("nsw", .bool)]
    let code ← newInt (.int 8) op.code
    pure [← call callee [code, x, y, if withSign then trueId else falseId]]
  | .shift t bits y => do
    let cond ← compareInt .uge y t bits
    pure [cond, ← faultCall func cond]
  | .zeroDivisor t y => do
    let isZero ← compareInt .eq y t 0
    pure [isZero, ← faultCall func isZero]
  | .signedDivision t bits x y => do
    if bits = 0 then throw .signless
    let isZero ← compareInt .eq y t 0
    let minusOne ← compareInt .eq y t (-1)
    let least ← compareInt .eq x t (-twoPow (bits - 1))
    let both ← newInst .bool (.arith .and [] minusOne least)
    let either ← newInst .bool (.arith .or [] isZero both)
    pure [isZero, minusOne, least, both, either, ← faultCall func either]

end Faultline.Instrument
