/-
# Sat.Cnf — clauses

A clause is a list of literals of which one holds; a problem is an array of clauses.
`ofCircuit` says that a literal of a circuit holds, by the three clauses of each
conjunction that the literal depends on.
-/
import Faultline.Circuit.Basic

namespace Faultline.Sat

open Circuit (Lit Gate)

abbrev Clause := List Lit

abbrev Cnf := Array Clause

def holds (assign : Nat → Bool) (l : Lit) : Bool :=
  assign l.gate != l.flipped

def Clause.holds (assign : Nat → Bool) (c : Clause) : Bool :=
  c.any (Sat.holds assign)

def Cnf.holds (assign : Nat → Bool) (cnf : Cnf) : Bool :=
  cnf.all (Clause.holds assign)

def gateClauses (place : Nat) : Gate → List Clause
  | .yes => [[.pos place]]
  | .input => []
  | .and a b =>
    let g := Lit.pos place
    [[g.not, a], [g.not, b], [g, a.not, b.not]]

/-- Visits the gates below `n`, newest first, and adds the clauses of the marked ones. -/
def coneFrom (c : Circuit) : Nat → Array Bool → Cnf → Cnf
  | 0, _, cnf => cnf
  | n + 1, marks, cnf =>
    if marks.getD n false then
      match c.gates.getD n .input with
      | .and a b =>
        let marks := (marks.setIfInBounds a.gate true).setIfInBounds b.gate true
        coneFrom c n marks ((gateClauses n (.and a b)).foldl Array.push cnf)
      | g => coneFrom c n marks ((gateClauses n g).foldl Array.push cnf)
    else coneFrom c n marks cnf

/-- Satisfied by the valuations of the circuit under which `root` holds. -/
def Cnf.ofCircuit (c : Circuit) (root : Lit) : Cnf :=
  let marks := (Array.replicate c.gates.size false).setIfInBounds root.gate true
  coneFrom c c.gates.size marks #[[root]]

end Faultline.Sat
