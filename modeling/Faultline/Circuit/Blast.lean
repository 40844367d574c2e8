/-
# Circuit.Blast — the circuit of a formula

`blast` draws every node that a formula is built from, operands first, as a word
of as many literals as the node has bits. A variable becomes a word of inputs.
The only nodes without a circuit are extensions that wrapped around and have
fewer bits than their operand.
-/
import Faultline.Circuit.Word
import Faultline.Formula.Reach

namespace Faultline.Circuit

open Formula (Handle Node Arena)

def drawArith (op : Formula.Arith) (x y : Word) : Draw Word :=
  match op with
  | .add => Word.add x y
  | .sub => Word.sub x y
  | .mul => Word.mul x y
  | .udiv => Prod.fst <$> Word.udivrem x y
  | .urem => Prod.snd <$> Word.udivrem x y
  | .sdiv => Prod.fst <$> Word.sdivrem x y
  | .srem => Prod.snd <$> Word.sdivrem x y
  | .and => Word.zipWithM and x y
  | .or => Word.zipWithM or x y
  | .xor => Word.zipWithM xor x y
  | .shl => Word.shift .left .no x y
  | .lshr => Word.shift .right .no x y
  | .ashr => Word.shift .right x.sign x y

def drawCompare (op : Formula.Compare) (x y : Word) : Draw Lit :=
  match op with
  | .eq => Word.eq x y
  | .ne => Lit.not <$> Word.eq x y
  | .ult => Word.ult x y
  | .ule => Lit.not <$> Word.ult y x
  | .ugt => Word.ult y x
  | .uge => Lit.not <$> Word.ult x y
  | .slt => Word.slt x y
  | .sle => Lit.not <$> Word.slt y x
  | .sgt => Word.slt y x
  | .sge => Lit.not <$> Word.slt x y

abbrev Words := Array Word

def Words.at (ws : Words) (f : Handle) : Word :=
  ws.getD f []

/-- The word of a node, or none for an extension that is narrower than its operand. -/
def drawNode (ws : Words) (n : Node) : OptionT Draw Word :=
  match n.term with
  | .const v => pure (.ofNat n.width v)
  | .var _ => OptionT.lift (Word.inputs n.width)
  | .not a => pure (ws.at a).not
  | .neg a => OptionT.lift (Word.neg (ws.at a))
  | .zext a => do
    let x := ws.at a
    guard (x.length ≤ n.width)
    pure (x ++ List.replicate (n.width - x.length) .no)
  | .sext a => do
    let x := ws.at a
    guard (x.length ≤ n.width)
    pure (x ++ List.replicate (n.width - x.length) x.sign)
  | .extract a hi lo => pure (((ws.at a).take (hi + 1)).drop lo)
  | .ite c t e => OptionT.lift (Word.mux ((ws.at c).headD .no) (ws.at t) (ws.at e))
  | .arith op a b => OptionT.lift (drawArith op (ws.at a) (ws.at b))
  | .compare op a b => OptionT.lift do pure [← drawCompare op (ws.at a) (ws.at b)]

def drawNodes (arena : Arena) : List Handle → Words → OptionT Draw Words
  | [], ws => pure ws
  | f :: fs, ws => do
    let w ← drawNode ws ((arena.node? f).getD default)
    drawNodes arena fs (ws.setIfInBounds f w)

structure Drawing where
  circuit : Circuit
  words : Words
  /-- The variables of the formula, in ascending order. -/
  vars : List Handle
  root : Lit
  deriving Inhabited

def isVar (arena : Arena) (f : Handle) : Bool :=
  match arena.node? f with
  | some ⟨_, .var _⟩ => true
  | _ => false

/-- The circuit of the bit `f`, or none if part of it has no circuit. -/
def blast (arena : Arena) (f : Handle) : Option Drawing :=
  let fs := arena.reachable f
  match (drawNodes arena fs (Array.replicate (f + 1) [])).run default with
  | (none, _) => none
  | (some words, circuit) =>
    some ⟨circuit, words, fs.filter (isVar arena), (words.at f).headD .no⟩

end Faultline.Circuit
