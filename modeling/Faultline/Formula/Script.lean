/-
# Formula.Script — formulas as SMT-LIB text

`termText` writes a formula as one term, in which a shared operand is repeated.
`script` writes a satisfiability query: it declares the variables, defines every
other node once, in the order of their handles and so after what they mention, and
asserts the formula.
-/
import Faultline.Formula.Build
import Faultline.Formula.Reach
import Faultline.Smt

namespace Faultline.Formula

/-- One node as a term over the terms of its operands, whose widths `argWidth` gives. A variable
is the symbol that `sym` makes of its name. -/
def Node.smt (sym : String → Smt.Symbol) (arg : Handle → Smt.Term) (argWidth : Handle → Nat)
    (n : Node) : Smt.Term :=
  match n.term with
  | .const v => .numeral v n.width
  | .var name => .symbol (sym name)
  | .not a => .not (arg a)
  | .neg a => .neg (arg a)
  | .zext a => .zeroExtend (subWidth n.width (argWidth a)) (arg a)
  | .sext a => .signExtend (subWidth n.width (argWidth a)) (arg a)
  | .extract a hi lo => .extract hi lo (arg a)
  | .ite c t e => .choice .eq (arg c) (.bit true) (arg t) (arg e)
  | .arith op a b => .arith op (arg a) (arg b)
  | .compare op a b => .choice op (arg a) (arg b) (.bit true) (.bit false)

def Arena.widthOf (a : Arena) (f : Handle) : Nat :=
  ((a.node? f).map Node.width).getD 0

/-- The terms of the listed nodes, each put into the table at its handle. -/
def Arena.termTable (a : Arena) (fs : List Handle) (size : Nat) : Array Smt.Term :=
  fs.foldl (fun table f =>
    match a.node? f with
    | some n => table.setIfInBounds f (n.smt (⟨·, false⟩) (fun g => table.getD g default) a.widthOf)
    | none => table) (Array.replicate size default)

/-- The whole formula as one term. References do not matter; the zero handle has no text. -/
def termText (f : Handle) : Build String := do
  let a ← get
  need (f < a.next) .outsideArena
  need (a.first ≤ f) .noTerm
  pure ((a.termTable (a.reachable f) (f + 1)).getD f default).text

/-- How a script refers to a node. -/
def Arena.symbol (a : Arena) (f : Handle) : Smt.Symbol :=
  match a.node? f with
  | some ⟨_, .var name⟩ => .quoted name
  | _ => ⟨s!"n{f}", false⟩

/-- The command that gives a node its symbol. -/
def Arena.binding? (a : Arena) (f : Handle) : Option Smt.Command :=
  (a.node? f).map fun n =>
    match n.term with
    | .var _ => .declare (a.symbol f) n.width
    | _ => .define (a.symbol f) n.width (n.smt .quoted (.symbol ∘ a.symbol) a.widthOf)

def Arena.script (a : Arena) (f : Handle) : Smt.Script :=
  .setLogic :: (a.reachable f).filterMap a.binding? ++ [.assert (.symbol (a.symbol f)), .checkSat]

/-- The query for a held formula. -/
def script (f : Handle) : Build String := do
  let _ ← held f
  pure ((← get).script f).text

end Faultline.Formula
