/-
# Flow.Graph — who comes before whom, and who uses what

The graph of a function is built once. Blocks are numbered by their position, and
instructions and terminators together by theirs; an instruction listed twice has
the number of its last position. Successors are distinct and in the order of the
terminator, predecessors are ascending. Uses are recorded for results of
instructions only, once for each occurrence as an operand.
-/
import Faultline.Fault
import Faultline.IR.Assembly.Printer
import Std.Data.HashMap

namespace Faultline.Flow

open IR (Module Func Block ValueId)

structure Graph where
  func : Func
  /-- The number of a block, by its value. -/
  index : Std.HashMap ValueId Nat := ∅
  preds : Array (List Nat) := #[]
  succs : Array (List Nat) := #[]
  /-- The number of an instruction or terminator. -/
  ids : Std.HashMap ValueId Nat := ∅
  /-- The block of each number. -/
  blockOf : Array Nat := #[]
  /-- Who uses a result, in order. -/
  users : Std.HashMap ValueId (List ValueId) := ∅

namespace Graph

def succsOf (g : Graph) (b : Nat) : List Nat :=
  g.succs.getD b []

def predsOf (g : Graph) (b : Nat) : List Nat :=
  g.preds.getD b []

def usersOf (g : Graph) (v : ValueId) : List ValueId :=
  g.users.getD v []

def id? (g : Graph) (v : ValueId) : Option Nat :=
  g.ids[v]?

def blockOf? (g : Graph) (v : ValueId) : Option Nat := do
  g.blockOf[← g.id? v]?

def size (g : Graph) : Nat :=
  g.func.blocks.size

def block (g : Graph) (b : Nat) : Block :=
  g.func.blocks.getD b default

def addUse (m : Module) (user : ValueId) (users : Std.HashMap ValueId (List ValueId)) (v : ValueId) :
    Std.HashMap ValueId (List ValueId) :=
  match m.get? v with
  | some (.inst _ _ _ _) => users.insert v (users.getD v [] ++ [user])
  | _ => users

def operandsOf (m : Module) (v : ValueId) : List ValueId :=
  match m.get? v with
  | some (.inst _ _ i _) => i.operands
  | some (.term _ _ t _) => t.operands
  | _ => []

/-- Numbers an instruction or terminator of block `b` and records what it uses. -/
def addUser (m : Module) (b : Nat) (g : Graph) (v : ValueId) : Graph :=
  { g with
    ids := g.ids.insert v g.blockOf.size
    blockOf := g.blockOf.push b
    users := (operandsOf m v).foldl (addUse m v) g.users }

def targets (m : Module) (b : Block) : List ValueId :=
  match b.term.bind m.get? with
  | some (.term _ _ t _) => t.succs
  | _ => []

def addBlock (m : Module) (g : Graph) (i : Nat) : Except Fault Graph := do
  let b := g.block i
  let g := (b.insts.toList ++ b.term.toList).foldl (addUser m i) g
  let succs ← (targets m b).mapM fun v =>
    match g.index[v]? with
    | some j => pure j
    | none => throw (.foreignSuccessor ((m.identText v).getD "") ((m.identText g.func.id).getD ""))
  pure { g with succs := g.succs.push succs.eraseDups }

/-- The blocks with an edge to `b`, ascending. -/
def predecessors (succs : Array (List Nat)) (b : Nat) : List Nat :=
  (List.range succs.size).filter fun a => (succs.getD a []).contains b

def ofFunc (m : Module) (f : Func) : Except Fault Graph := do
  let blocks := List.range f.blocks.size
  let index := blocks.foldl (fun index i => index.insert (f.blocks.getD i default).id i)
    (∅ : Std.HashMap ValueId Nat)
  let g ← blocks.foldlM (addBlock m) { func := f, index := index }
  pure { g with preds := (blocks.map (predecessors g.succs)).toArray }

def indexOf (m : Module) (g : Graph) (v : ValueId) : Except Fault Nat :=
  match g.index[v]? with
  | some i => .ok i
  | none => .error (.foreignBlock ((m.identText v).getD "") ((m.identText g.func.id).getD ""))

end Graph

end Faultline.Flow
