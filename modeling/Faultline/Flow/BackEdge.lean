/-
# Flow.BackEdge — edges that close a cycle

A depth-first search from the entry block, and then from each block it missed in
order, meets an edge whose target lies on the current path: such an edge closes a
cycle. Without these edges the graph has none.
-/
import Faultline.Flow.Edge
import Faultline.Flow.Graph

namespace Faultline.Flow

/-- A block on the path and its successors still to be looked at. -/
abbrev Frame := Nat × List Nat

def onPath (path : List Frame) (b : Nat) : Bool :=
  path.any fun frame => frame.1 == b

/-- Goes on along the path; gives the blocks seen and the edges found, newest first. -/
def explore (next : Nat → List Nat) : Nat → List Frame → List Nat → List Edge → List Nat × List Edge
  | 0, _, seen, found => (seen, found)
  | _ + 1, [], seen, found => (seen, found)
  | fuel + 1, (_, []) :: path, seen, found => explore next fuel path seen found
  | fuel + 1, (b, s :: rest) :: path, seen, found =>
    if !seen.contains s then
      explore next fuel ((s, next s) :: (b, rest) :: path) (s :: seen) found
    else if onPath ((b, rest) :: path) s then
      explore next fuel ((b, rest) :: path) seen ((b, s) :: found)
    else explore next fuel ((b, rest) :: path) seen found

namespace Graph

def steps (g : Graph) : Nat :=
  g.size + g.succs.toList.flatten.length + 1

def backEdgesFrom (g : Graph) : List Nat → List Nat → List Edge → List Edge
  | [], _, found => found
  | root :: roots, seen, found =>
    if seen.contains root then backEdgesFrom g roots seen found
    else
      let (seen, found) := explore g.succsOf g.steps [(root, g.succsOf root)] (root :: seen) found
      backEdgesFrom g roots seen found

def backEdges (g : Graph) : EdgeSet :=
  .ofList (backEdgesFrom g (List.range g.size) [] [])

end Graph

end Faultline.Flow
