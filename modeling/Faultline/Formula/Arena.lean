/-
# Formula.Arena — formulas and who holds them

An `Arena` stores formula nodes, oldest first. A node is named by its handle;
handles are counted from one, so the zero handle names nothing. Every formula has a
count of the references held to it, and `live` is the sum of all counts. A builder
returns a formula with one reference for its caller; `retain` takes one more and
`release` gives one back.

Nothing is ever freed before `close`, which drops all nodes at once. A closed arena
can be filled again, but it takes no variables, and its handles are counted from
zero.
-/
import Faultline.Fault
import Std.Data.HashSet

namespace Faultline.Formula

/-- The place of a formula in its arena. -/
abbrev Handle := Nat

inductive Term where
  | const (value : Nat)
  | var (name : String)
  | not (arg : Handle)
  | neg (arg : Handle)
  | zext (arg : Handle)
  | sext (arg : Handle)
  | extract (arg : Handle) (hi lo : Nat)
  | ite (cond onTrue onFalse : Handle)
  | arith (op : Arith) (left right : Handle)
  | compare (op : Compare) (left right : Handle)
  deriving DecidableEq, Inhabited

structure Node where
  width : Nat
  term : Term
  deriving DecidableEq, Inhabited

namespace Term

def op : Term → Op
  | const _ => .const
  | var _ => .var
  | not _ => .not
  | neg _ => .neg
  | zext _ => .zext
  | sext _ => .sext
  | extract _ _ _ => .extract
  | ite _ _ _ => .ite
  | arith op _ _ => .arith op
  | compare op _ _ => .compare op

def args : Term → List Handle
  | const _ | var _ => []
  | not a | neg a | zext a | sext a | extract a _ _ => [a]
  | ite c t e => [c, t, e]
  | arith _ a b | compare _ a b => [a, b]

end Term

structure Arena where
  nodes : Array Node := #[]
  refs : Array Nat := #[]
  live : Nat := 0
  names : Std.HashSet String := ∅
  closed : Bool := false
  deriving Inhabited

abbrev Build := ExceptT Fault (StateM Arena)

namespace Arena

def first (a : Arena) : Nat :=
  if a.closed then 0 else 1

/-- The handle that the next node will get. -/
def next (a : Arena) : Handle :=
  a.nodes.size + a.first

/-- The number of nodes behind the zero handle; a closed and empty arena lacks even that one. -/
def len (a : Arena) : Int :=
  (a.next : Int) - 1

/-- The node of a handle, held or not. -/
def node? (a : Arena) (f : Handle) : Option Node :=
  if f < a.first then none else a.nodes[f - a.first]?

def count (a : Arena) (f : Handle) : Nat :=
  if f < a.first then 0 else a.refs.getD (f - a.first) 0

/-- A handle that names a formula: not the zero handle, and not past the arena. -/
def Realized (a : Arena) (f : Handle) : Prop :=
  0 < f ∧ f < a.next

instance (a : Arena) (f : Handle) : Decidable (a.Realized f) :=
  inferInstanceAs (Decidable (_ ∧ _))

def setCount (a : Arena) (f : Handle) (n : Nat) : Arena :=
  { a with refs := a.refs.setIfInBounds (f - a.first) n }

end Arena

/-- Refuses with `fault` unless `p` holds. -/
def need (p : Prop) [Decidable p] (fault : Fault) : Build Unit :=
  if p then pure () else throw fault

def node (f : Handle) : Build Node := do
  let a ← get
  need (a.Realized f) (.notRealized f)
  pure ((a.node? f).getD default)

/-- The node of a handle somebody holds. -/
def held (f : Handle) : Build Node := do
  let a ← get
  need (a.Realized f) (.notRealized f)
  need (0 < a.count f) (.alreadyReleased f)
  pure ((a.node? f).getD default)

def width (f : Handle) : Build Nat :=
  Node.width <$> held f

/-- One more reference to a held formula. -/
def retain (f : Handle) : Build Handle := do
  let _ ← held f
  modify fun a =>
    let n := a.count f
    let a := a.setCount f (n + 1)
    { a with live := a.live + 1 }
  pure f

def releaseOne (f : Handle) : Build Unit := do
  let a ← get
  need (a.Realized f) (.releaseUnrealized f)
  need (0 < a.count f) (.doubleRelease f)
  modify fun a =>
    let n := a.count f
    let a := a.setCount f (n - 1)
    { a with live := a.live - 1 }

/-- One reference less to each formula, in order. -/
def release : List Handle → Build Unit
  | [] => pure ()
  | f :: fs => do
    releaseOne f
    release fs

def holding {α : Type} (fs : List Handle) (body : Build α) : Build α :=
  fun a =>
    match body a with
    | (.ok x, a) =>
      match release fs a with
      | (.ok (), a) => (.ok x, a)
      | (.error e, a) => (.error e, a)
    | (.error e, a) =>
      match release fs a with
      | (.ok (), a) => (.error e, a)
      | (.error e, a) => (.error e, a)

/-- Runs `rest` on what `make` returns, and gives that back after it. -/
def keeping (make : Build Handle) (rest : Handle → Build Handle) : Build Handle := do
  let f ← make
  holding [f] (rest f)

def add (n : Node) : Build Handle := do
  need (0 < n.width) (.zeroWidth n.term.op)
  let f := (← get).next
  modify fun a =>
    { a with nodes := a.nodes.push n, refs := a.refs.push 1, live := a.live + 1 }
  pure f

/-- Drops all nodes; gives the number of references that were still held. -/
def Arena.close (a : Arena) : Nat × Arena :=
  (a.live, { closed := true })

end Faultline.Formula
