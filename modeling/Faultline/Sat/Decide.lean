/-
# Sat.Decide — can a literal of a circuit hold?

`decide` answers with inputs under which the literal holds, or with the statement
that there are none. What the search proposes is believed only after a check: an
assignment is evaluated in the circuit, a refutation is replayed. Should a proposal
fail its check, all inputs are tried, so without a limit the answer is always
definite.
-/
import Faultline.Sat.Search

namespace Faultline.Sat

open Circuit (Lit)

inductive Answer where
  | sat (inputs : Nat → Bool)
  | unsat
  | spent

def inputPlaces (c : Circuit) : List Nat :=
  (List.range c.gates.size).filter fun i => c.gates.getD i .yes = .input

def exhaust (c : Circuit) (root : Lit) : List Nat → (Nat → Bool) → Option (Nat → Bool)
  | [], assign => if c.eval assign root then some assign else none
  | i :: rest, assign =>
    match exhaust c root rest (fun j => if j = i then false else assign j) with
    | some found => some found
    | none => exhaust c root rest (fun j => if j = i then true else assign j)

def exhaustive (c : Circuit) (root : Lit) : Answer :=
  match exhaust c root (inputPlaces c) (fun _ => false) with
  | some assign => .sat assign
  | none => .unsat

/-- More conflicts than any search will see. -/
def unlimited : Nat := twoPow 60

/-- Can `root` hold? `limit?` bounds the number of conflicts. -/
def decide (c : Circuit) (root : Lit) (limit? : Option Nat) : Answer :=
  let cnf := Cnf.ofCircuit c root
  match search c.gates.size (limit?.getD unlimited) cnf with
  | .model value =>
    let assign := fun i => value.get! (2 * i) == 1
    if c.eval assign root then .sat assign else exhaustive c root
  | .refuted trace => if trace.check c.gates.size cnf then .unsat else exhaustive c root
  | .spent => if limit?.isSome then .spent else exhaustive c root

end Faultline.Sat
