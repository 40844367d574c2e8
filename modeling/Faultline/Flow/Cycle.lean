/-
# Flow.Cycle — is anything left of the cycles?

`Graph.cycle?` tells whether the graph without a set of edges has a cycle, and names
a block of one. A self loop is found first. Otherwise the strongly connected
components are computed: blocks in the reverse of the order in which a forward
search leaves them, and from each a backward search, which collects a component in
the order in which it leaves its blocks.
-/
import Faultline.Flow.BackEdge

namespace Faultline.Flow

/-- Goes on along the path; gives the blocks seen and the blocks left, the last one first. -/
def leave (next : Nat → List Nat) : Nat → List Frame → List Nat → List Nat → List Nat × List Nat
  | 0, _, seen, left => (seen, left)
  | _ + 1, [], seen, left => (seen, left)
  | fuel + 1, (b, []) :: path, seen, left => leave next fuel path seen (b :: left)
  | fuel + 1, (b, s :: rest) :: path, seen, left =>
    if seen.contains s then leave next fuel ((b, rest) :: path) seen left
    else leave next fuel ((s, next s) :: (b, rest) :: path) (s :: seen) left

/-- The blocks in the reverse of the order in which a search from the roots leaves them. -/
def leavingOrder (next : Nat → List Nat) (fuel : Nat) : List Nat → List Nat → List Nat → List Nat
  | [], _, left => left
  | root :: roots, seen, left =>
    if seen.contains root then leavingOrder next fuel roots seen left
    else
      let (seen, left) := leave next fuel [(root, next root)] (root :: seen) left
      leavingOrder next fuel roots seen left

/-- The set of blocks that a search from each root leaves, in the order of leaving. -/
def groups (next : Nat → List Nat) (fuel : Nat) : List Nat → List Nat → List (List Nat)
  | [], _ => []
  | root :: roots, seen =>
    if seen.contains root then groups next fuel roots seen
    else
      let (seen, left) := leave next fuel [(root, next root)] (root :: seen) []
      left.reverse :: groups next fuel roots seen

/-- A cycle that is left: a self loop, or a longer one. -/
inductive Cycle where
  | selfLoop (block : Nat)
  | through (block : Nat)
  deriving DecidableEq, Inhabited

namespace Graph

/-- The successors of a block along edges outside the set. -/
def forward (g : Graph) (cut : EdgeSet) (b : Nat) : List Nat :=
  (g.succsOf b).filter fun s => !cut.has b s

def backward (g : Graph) (cut : EdgeSet) (b : Nat) : List Nat :=
  (List.range g.size).filter fun a => (g.forward cut a).contains b

def selfLoop? (g : Graph) (cut : EdgeSet) : Option Nat :=
  (List.range g.size).find? fun b => (g.forward cut b).contains b

/-- The strongly connected components of the graph without the set of edges. -/
def components (g : Graph) (cut : EdgeSet) : List (List Nat) :=
  let order := leavingOrder (g.forward cut) g.steps (List.range g.size) [] []
  groups (g.backward cut) g.steps order []

def cycle? (g : Graph) (cut : EdgeSet) : Option Cycle :=
  match g.selfLoop? cut with
  | some b => some (.selfLoop b)
  | none =>
    match (g.components cut).find? fun c => 1 < c.length with
    | some (b :: _) => some (.through b)
    | _ => none

end Graph

def Cycle.message (name : Nat → String) : Cycle → String
  | .selfLoop b => "self loop on block " ++ name b ++ " is not a back edge"
  | .through b => "cycle through block " ++ name b ++ " is not broken by back edges"

end Faultline.Flow
