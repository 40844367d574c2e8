/-
# IR.Numbering — numbers for unnamed values

The unnamed parameters, blocks and results of a function are numbered together, in
order, from zero, and so are the unnamed globals of a module. A value that already
has a number keeps it only if its turn comes with that number; the number zero
counts as none.
-/
import Faultline.IR.Basic

namespace Faultline.IR

/-- A value has number `got` where `expected` comes next. -/
structure NumberingError where
  expected : Nat
  got : Int
  deriving DecidableEq, Inhabited

/-- The name of a value that has one; results of type void have none. -/
def Def.local? {ν : Type} : Def ν → Option Name
  | .inst _ .void _ _ | .term _ .void _ _ => none
  | .param n _ | .inst n _ _ _ | .term n _ _ _ | .block n => some n
  | _ => none

def Def.global? {ν : Type} : Def ν → Option Name
  | .global n _ | .func n _ => some n
  | _ => none

def Func.locals (f : Func) : List ValueId :=
  f.params.map Param.id ++ f.blocks.toList.flatMap fun b => b.id :: (b.insts.toList ++ b.term.toList)

section Table

variable {ν : Type} (name? : Def ν → Option Name)

def setNumber (defs : Array (Def ν)) (v : ValueId) (n : Nat) : Array (Def ν) :=
  defs.modify v (Def.setName (.number n))

/-- Gives the values their numbers from `next` on, as far as that goes. -/
def numberFrom : Array (Def ν) → List ValueId → Nat → Option NumberingError × Array (Def ν)
  | defs, [], _ => (none, defs)
  | defs, v :: vs, next =>
    match defs[v]?.bind name? with
    | some (.number got) =>
      if got ≠ 0 ∧ got ≠ next then (some ⟨next, got⟩, defs)
      else numberFrom (setNumber defs v next) vs (next + 1)
    | _ => numberFrom defs vs next

def unnumber : Array (Def ν) → List ValueId → Array (Def ν)
  | defs, [] => defs
  | defs, v :: vs =>
    match defs[v]?.bind name? with
    | some (.number _) => unnumber (setNumber defs v 0) vs
    | _ => unnumber defs vs

end Table

def Module.number (m : Module) (f : Func) : Option NumberingError × Module :=
  let (e, defs) := numberFrom Def.local? m.defs f.locals 0
  (e, { m with defs := defs })

def Module.renumber (m : Module) (f : Func) : Option NumberingError × Module :=
  Module.number { m with defs := unnumber Def.local? m.defs f.locals } f

def Module.numberAll (m : Module) : Except NumberingError Module :=
  m.funcs.toList.foldlM (fun m f =>
    match m.number f with
    | (none, m) => .ok m
    | (some e, _) => .error e) m

/-- Variables, aliases, indirect functions and functions, in this order. -/
def Module.globalIds (m : Module) : List ValueId :=
  (m.globals ++ m.aliases ++ m.indirect).toList.map Global.id ++ m.funcs.toList.map Func.id

def Module.numberGlobals (m : Module) : Except NumberingError Module :=
  match numberFrom Def.global? m.defs m.globalIds 0 with
  | (none, defs) => .ok { m with defs := defs }
  | (some e, _) => .error e

end Faultline.IR
