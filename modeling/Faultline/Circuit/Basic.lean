/-
# Circuit.Basic — and-inverter circuits

A circuit is a list of gates, oldest first: the constant, inputs, and conjunctions
of two older literals. A literal is a gate or its complement, so complements cost
nothing, and everything else is built from conjunctions.

`and` simplifies: equal or opposite operands and constant operands need no gate, and
a conjunction that was drawn before is used again.
-/
import Std.Data.HashMap

namespace Faultline.Circuit

/-- A gate or its complement: twice the place of the gate, plus one for the complement. -/
structure Lit where
  code : Nat
  deriving DecidableEq, Hashable, Inhabited

namespace Lit

def pos (gate : Nat) : Lit := ⟨2 * gate⟩

def gate (l : Lit) : Nat := l.code / 2

/-- The literal stands for the complement of its gate. -/
def flipped (l : Lit) : Bool := l.code % 2 == 1

def not (l : Lit) : Lit :=
  if l.code % 2 == 0 then ⟨l.code + 1⟩ else ⟨l.code - 1⟩

/-- The constant is the oldest gate. -/
def yes : Lit := ⟨0⟩

def no : Lit := ⟨1⟩

def ofBool (b : Bool) : Lit :=
  if b then yes else no

end Lit

inductive Gate where
  | yes
  | input
  | and (left right : Lit)
  deriving DecidableEq, Inhabited

end Faultline.Circuit

namespace Faultline

open Circuit (Lit Gate)

structure Circuit where
  gates : Array Gate := #[.yes]
  /-- Where a conjunction may have been drawn already. -/
  drawn : Std.HashMap (Lit × Lit) Nat := ∅
  deriving Inhabited

end Faultline

namespace Faultline.Circuit

abbrev Draw := StateM Circuit

def draw (g : Gate) : Draw Lit := do
  let place := (← get).gates.size
  modify fun c => { c with gates := c.gates.push g }
  pure (.pos place)

def input : Draw Lit :=
  draw .input

/-- The place of the conjunction of `a` and `b`, if it was drawn. -/
def find? (c : Circuit) (a b : Lit) : Option Nat := do
  let place ← c.drawn[(a, b)]?
  guard (c.gates[place]? = some (.and a b))
  pure place

def drawAnd (a b : Lit) : Draw Lit := do
  match find? (← get) a b with
  | some place => pure (.pos place)
  | none =>
    let place := (← get).gates.size
    modify fun c => { c with drawn := c.drawn.insert (a, b) place }
    draw (.and a b)

def and (a b : Lit) : Draw Lit :=
  if a = b then pure a
  else if a = b.not then pure .no
  else if a = .no ∨ b = .no then pure .no
  else if a = .yes then pure b
  else if b = .yes then pure a
  else if a.code < b.code then drawAnd a b
  else drawAnd b a

def or (a b : Lit) : Draw Lit := do
  pure (← and a.not b.not).not

def xor (a b : Lit) : Draw Lit := do
  or (← and a b.not) (← and a.not b)

def choice (s t e : Lit) : Draw Lit := do
  or (← and s t) (← and s.not e)

/-- The value of every gate, oldest first; the inputs take theirs from `assign`, at their place. -/
def values (c : Circuit) (assign : Nat → Bool) : Array Bool :=
  c.gates.foldl (fun vs g =>
    let value (l : Lit) : Bool := vs.getD l.gate false != l.flipped
    vs.push (match g with
      | .yes => true
      | .input => assign vs.size
      | .and a b => value a && value b)) #[]

def eval (c : Circuit) (assign : Nat → Bool) (l : Lit) : Bool :=
  (c.values assign).getD l.gate false != l.flipped

end Faultline.Circuit
