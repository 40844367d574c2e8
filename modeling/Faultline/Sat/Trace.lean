/-
# Sat.Trace — refutations that can be checked

A trace refutes a problem step by step. Each step claims a clause and names earlier
clauses in the order in which they become unit once the claimed clause is assumed
false; the last of them must become empty.

`Trace.check` accepts a trace only if each step is right and one of them is the
empty clause.
-/
import Faultline.Sat.Cnf

namespace Faultline.Sat

open Circuit (Lit)

/-- A claimed clause and the clauses it follows from, by their number: first come those of the
problem, then those claimed before. -/
structure Step where
  clause : Clause
  hints : List Nat
  deriving Inhabited

abbrev Trace := Array Step

/-- Which literals are known to be true: each carries the stamp of the step that learned it last.
The stamp zero is no step, `forGood` is the stamp of what holds in every step. -/
abbrev Stamps := Array Nat

def forGood : Nat := 1

def Stamps.known (stamps : Stamps) (k : Nat) (l : Lit) : Bool :=
  let s := stamps.getD l.code 0
  s == k || s == forGood

/-- Known for good is never overwritten. -/
def Stamps.learn (stamps : Stamps) (k : Nat) (l : Lit) : Stamps :=
  if stamps.known k l then stamps else stamps.setIfInBounds l.code k

inductive Reduced where
  | conflict
  | unit (l : Lit)
  | open

/-- What is left of a clause when its false literals are dropped. -/
def reduce (stamps : Stamps) (k : Nat) : Clause → Reduced
  | [] => .conflict
  | l :: c =>
    if stamps.known k l.not then reduce stamps k c
    else if c.all fun l' => l' = l || stamps.known k l'.not then .unit l
    else .open

def follow (clauses : Cnf) (k : Nat) : List Nat → Stamps → Bool × Stamps
  | [], stamps => (false, stamps)
  | h :: hints, stamps =>
    match clauses[h]? with
    | none => (false, stamps)
    | some c =>
      match reduce stamps k c with
      | .conflict => (true, stamps)
      | .unit l => follow clauses k hints (stamps.learn k l)
      | .open => (false, stamps)

def learnAll (stamps : Stamps) (k : Nat) (ls : List Lit) : Stamps :=
  ls.foldl (fun stamps l => stamps.learn k l) stamps

def checkStep (clauses : Cnf) (stamps : Stamps) (k : Nat) (s : Step) : Bool × Stamps :=
  follow clauses k s.hints (learnAll stamps k (s.clause.map Lit.not))

def checkFrom : List Step → Nat → Cnf → Stamps → Bool
  | [], _, _, _ => false
  | s :: steps, k, clauses, stamps =>
    match checkStep clauses stamps k s with
    | (false, _) => false
    | (true, stamps) =>
      match s.clause with
      | [] => true
      | [l] => checkFrom steps (k + 1) (clauses.push s.clause) (stamps.learn forGood l)
      | _ => checkFrom steps (k + 1) (clauses.push s.clause) stamps

def Trace.check (vars : Nat) (cnf : Cnf) (t : Trace) : Bool :=
  checkFrom t.toList (forGood + 1) cnf (Array.replicate (2 * vars) 0)

end Faultline.Sat
