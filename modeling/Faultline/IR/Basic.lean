/-
# IR.Basic — modules, functions, blocks and values

A module keeps all its values in one table. A value is named by its place in the
table, so two values are the same only if they stand at one place; each constant of
the text has a place of its own, except the two truth values and `none`, which are
shared. Nothing prevents an instruction from being listed twice: it is then one
value that occurs at two positions.

`Inst`, `Term` and `Const` take the type of their operands as a parameter: places in
a finished module, written operands while a module is being read.
-/
import Faultline.Formula.Op
import Faultline.IR.Type

namespace Faultline.IR

open Text (Bytes)

/-- The place of a value in its module. -/
abbrev ValueId := Nat

/-- A value has a name or, without one, a number; zero may also mean not numbered yet. -/
inductive Name where
  | named (text : Bytes)
  | number (n : Int)
  deriving DecidableEq, Ord, Inhabited

inductive Piece (ν : Type) where
  | text (s : String)
  | type (t : Ty)
  | typed (v : ν)
  | bare (v : ν)
  | label (v : ν)
  deriving Inhabited

/-- A comparison of integers. A predicate may be a number that means nothing. -/
inductive Pred where
  | known (op : Formula.Compare)
  | unknown (n : Nat)
  deriving DecidableEq, Inhabited

inductive Cast where
  | trunc | zext | sext | fptrunc | fpext | fptoui | fptosi | uitofp | sitofp
  | ptrtoint | inttoptr | bitcast | addrspacecast
  deriving DecidableEq, Inhabited

/-- A call, alone or as part of a terminator. -/
structure Call (ν : Type) where
  lead : String
  type : Ty
  callee : ν
  args : List ν
  trail : List (Piece ν) := []
  deriving Inhabited

inductive Inst (ν : Type) where
  | arith (op : Formula.Arith) (flags : List String) (x y : ν)
  | icmp (pred : Pred) (x y : ν)
  | gep (inbounds : Bool) (elem : Ty) (base : ν) (indices : List ν)
  | cast (op : Cast) (x : ν) (target : Ty)
  | select (flags : List String) (cond onTrue onFalse : ν)
  /-- Each value comes in from a block. -/
  | phi (flags : List String) (type : Ty) (incoming : List (ν × ν))
  | call (call : Call ν)
  | extractValue (x : ν) (path : List Nat)
  /-- Any other instruction; `pure` ones have no effect and cannot trap. -/
  | other (pure : Bool) (pieces : List (Piece ν))
  deriving Inhabited

inductive Term (ν : Type) where
  | ret (x : Option ν)
  | br (target : ν)
  | condBr (cond onTrue onFalse : ν)
  | switch (x default : ν) (cases : List (ν × ν))
  | invoke (call : Call ν) (normal unwind : ν)
  | callbr (call : Call ν) (normal : ν) (others : List ν)
  | other (pieces : List (Piece ν))
  deriving Inhabited

inductive Const (ν : Type) where
  /-- The integer as it was written, not cut to its type. -/
  | int (n : Int)
  | null
  | undef
  /-- Indices may be marked as in range. -/
  | gep (inbounds : Bool) (elem : Ty) (base : ν) (indices : List (Bool × ν))
  | other (pieces : List (Piece ν))
  deriving Inhabited

inductive Def (ν : Type) where
  | param (name : Name) (type : Ty)
  | inst (name : Name) (type : Ty) (inst : Inst ν) (trail : List (Piece ν))
  | term (name : Name) (type : Ty) (term : Term ν) (trail : List (Piece ν))
  | block (name : Name)
  | const (type : Ty) (value : Const ν)
  | global (name : Name) (type : Ty)
  | func (name : Name) (type : Ty)
  /-- An argument with attributes; a value of its own. -/
  | attributed (attrs : String) (x : ν)
  deriving Inhabited

structure Block where
  id : ValueId
  insts : Array ValueId
  term : Option ValueId
  deriving Inhabited

structure Param where
  id : ValueId
  attrs : String
  deriving Inhabited

/-- A function; without blocks it is only declared. -/
structure Func where
  id : ValueId
  /-- The name without its mark. -/
  name : Bytes
  lead : String := ""
  result : Ty
  params : List Param
  variadic : Bool := false
  trail : List (Piece ValueId) := []
  attached : List (Piece ValueId) := []
  blocks : Array Block := #[]
  orders : List (List (Piece ValueId)) := []
  deriving Inhabited

/-- A global variable, an alias or an indirect function. -/
structure Global where
  id : ValueId
  pieces : List (Piece ValueId)
  deriving Inhabited

structure Module where
  sourceFilename : Bytes := []
  dataLayout : Bytes := []
  targetTriple : Bytes := []
  /-- Assembly of the target. -/
  inlined : List Bytes := []
  types : TypeDefs := []
  comdats : List String := []
  globals : Array Global := #[]
  aliases : Array Global := #[]
  indirect : Array Global := #[]
  funcs : Array Func := #[]
  attributes : List String := []
  namedMetadata : List String := []
  metadata : List (List (Piece ValueId)) := []
  orders : List (List (Piece ValueId)) := []
  defs : Array (Def ValueId) := #[]
  deriving Inhabited

/-! ## Shared constants -/

def trueId : ValueId := 0

def falseId : ValueId := 1

def noneId : ValueId := 2

def shared {ν : Type} : Array (Def ν) :=
  #[.const .bool (.int 1), .const .bool (.int 0), .const .token (.other [.text "none"])]

/-! ## Reading a module -/

namespace Def

variable {ν : Type}

def isInst : Def ν → Bool
  | .inst _ _ _ _ => true
  | _ => false

def name? : Def ν → Option Name
  | .param n _ | .inst n _ _ _ | .term n _ _ _ | .block n | .global n _ | .func n _ => some n
  | .const _ _ | .attributed _ _ => none

def setName (name : Name) : Def ν → Def ν
  | .param _ t => .param name t
  | .inst _ t i trail => .inst name t i trail
  | .term _ t i trail => .term name t i trail
  | .block _ => .block name
  | .global _ t => .global name t
  | .func _ t => .func name t
  | d => d

end Def

namespace Module

def get? (m : Module) (v : ValueId) : Option (Def ValueId) :=
  m.defs[v]?

def typeOf (m : Module) (v : ValueId) : Ty :=
  match m.get? v with
  | some (.attributed _ x) =>
    match m.get? x with
    | some d => plain d
    | none => .void
  | some d => plain d
  | none => .void
where
  plain : Def ValueId → Ty
    | .param _ t | .inst _ t _ _ | .term _ t _ _ | .const t _ | .global _ t | .func _ t => t
    | .block _ => .label
    | .attributed _ _ => .void

def resolve (m : Module) (t : Ty) : Ty :=
  t.resolve m.types

def addDef (m : Module) (d : Def ValueId) : ValueId × Module :=
  (m.defs.size, { m with defs := m.defs.push d })

end Module

/-! ## Operands -/

def Piece.value? {ν : Type} : Piece ν → Option ν
  | .typed v | .bare v => some v
  | .text _ | .type _ | .label _ => none

def Piece.target? {ν : Type} : Piece ν → Option ν
  | .label v => some v
  | .text _ | .type _ | .typed _ | .bare _ => none

def Call.operands {ν : Type} (c : Call ν) : List ν :=
  c.callee :: c.args

def Inst.operands {ν : Type} : Inst ν → List ν
  | .arith _ _ x y => [x, y]
  | .icmp _ x y => [x, y]
  | .gep _ _ base indices => base :: indices
  | .cast _ x _ => [x]
  | .select _ c t e => [c, t, e]
  | .phi _ _ incoming => incoming.map Prod.fst
  | .call c => c.operands
  | .extractValue x _ => [x]
  | .other _ pieces => pieces.filterMap Piece.value?

/-- The values a terminator reads; block labels and the values of cases do not count. -/
def Term.operands {ν : Type} : Term ν → List ν
  | .ret x => x.toList
  | .br _ => []
  | .condBr c _ _ => [c]
  | .switch x _ _ => [x]
  | .invoke c _ _ | .callbr c _ _ => c.operands
  | .other pieces => pieces.filterMap Piece.value?

/-- The blocks control may go to, in order, with repetitions. -/
def Term.succs {ν : Type} : Term ν → List ν
  | .ret _ => []
  | .br b => [b]
  | .condBr _ t e => [t, e]
  | .switch _ d cases => d :: cases.map Prod.snd
  | .invoke _ normal unwind => [normal, unwind]
  | .callbr _ normal others => normal :: others
  | .other pieces => pieces.filterMap Piece.target?

end Faultline.IR
