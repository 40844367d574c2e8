/-
# Check.Module — all functions of a module

The functions with a body that no pattern excludes are checked in order. Their
reports are put together in that order and their tallies are summed; a failure of
one function is the failure of the whole.
-/
import Faultline.Check.Function
import Faultline.Text.Glob

namespace Faultline.Check

open IR (Module Func)

/-- Whether one of the patterns fits a name. The first one that is malformed or fits decides. -/
def isExcluded (name : Text.Bytes) : List String → Except Error Bool
  | [] => .ok false
  | p :: ps =>
    match Text.Glob.matches? p name with
    | none => .error (.pattern p)
    | some true => .ok true
    | some false => isExcluded name ps

def selected (o : Options) : List Func → Examine (List Func)
  | [] => pure []
  | f :: fs => do
    if f.blocks.isEmpty then selected o fs
    else match isExcluded f.name o.exclude with
      | .error e => throw e
      | .ok true => do
        say .debug "excluded" [("func", .text (Text.shown f.name))]
        selected o fs
      | .ok false => do pure (f :: (← selected o fs))

/-- Checks the functions one after another; `interrupted` also takes the position of the function. -/
def functions (o : Options) (m : Module) (layout : Layout) (interrupted : Nat → Nat → Bool) :
    List Func → Nat → Examine (List (List Report × CheckTally))
  | [], _ => pure []
  | f :: fs, i => do
    let r ← function o m layout f (interrupted i)
    pure (r :: (← functions o m layout interrupted fs (i + 1)))

/-- Puts the results of the functions together. -/
def gather (rs : List (List Report × CheckTally)) : List Report × CheckTally :=
  (rs.flatMap Prod.fst, rs.foldl (fun t r => t.add r.2) {})

def layoutOf (m : Module) : Examine Layout :=
  match Layout.parse m.dataLayout with
  | .ok l => pure l
  | .error e => throw (.layout e)

def module (o : Options) (m : Module) (interrupted : Nat → Nat → Bool) :
    Examine (List Report × CheckTally) := do
  let layout ← layoutOf m
  let fs ← selected o m.funcs.toList
  pure (gather (← functions o m layout interrupted fs 0))

/-- Checks one function of a module; patterns do not count. -/
def single (o : Options) (m : Module) (f : Func) (interrupted : Nat → Bool) :
    Examine (List Report × CheckTally) := do
  function o m (← layoutOf m) f interrupted

end Faultline.Check
