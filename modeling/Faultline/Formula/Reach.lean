/-
# Formula.Reach — the nodes of a formula

`reachable f` lists the handles of the nodes that `f` is built from, itself
included, in ascending order. Operands are older than the nodes that use them,
so one sweep from `f` down to the oldest node finds them all, and in the list
every operand precedes its users.
-/
import Faultline.Formula.Arena

namespace Faultline.Formula

/-- The operands of a handle; a handle without a node has none. -/
def Arena.args (a : Arena) (f : Handle) : List Handle :=
  match a.node? f with
  | some n => n.term.args
  | none => []

def markAll (marks : Array Bool) (fs : List Handle) : Array Bool :=
  fs.foldl (fun marks f => marks.setIfInBounds f true) marks

/-- Visits the handles below `n`, highest first: a marked handle goes in front of `found` and its
operands are marked. -/
def sweep (a : Arena) : Nat → Array Bool → List Handle → List Handle
  | 0, _, found => found
  | n + 1, marks, found =>
    if marks.getD n false then sweep a n (markAll marks (a.args n)) (n :: found)
    else sweep a n marks found

/-- The nodes `f` is built from. The zero handle of an open arena reaches only itself. -/
def Arena.reachable (a : Arena) (f : Handle) : List Handle :=
  sweep a (f + 1) (markAll (Array.replicate (f + 1) false) [f]) []

/-- `Arena.reachable`, refused for a handle past the arena. -/
def reachable (f : Handle) : Build (List Handle) := do
  let a ← get
  need (f < a.next) .outsideArena
  pure (a.reachable f)

end Faultline.Formula
