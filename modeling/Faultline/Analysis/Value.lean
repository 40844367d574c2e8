/-
# Analysis.Value — the formula of a value

A value of integer or pointer type is expressed by the instruction that defines it:
arithmetic, comparisons, choices, conversions and address computations become terms
over the formulas of their operands. Everything else (parameters, loads, calls,
phis, globals) becomes a variable that bears the name of the value.

Operands are expressed on demand, so a value that is defined through itself has no
end: the depth is bounded by the number of values of the module.
-/
import Faultline.Analysis.Basic

namespace Faultline.Analysis

open IR (Module ValueId Ty Inst)
open Formula (Handle subWidth signed truncate)

def free (s : Setting) (v : ValueId) : Analyze Handle := do
  let t := s.module.typeOf v
  let w := match s.width? t with
    | some w => w
    | none =>
      let bits := (s.extent t).bits
      if bits = 0 then 1 else bits
  build (Formula.var w (← s.ident v))

/-- The signed number of an integer constant, if the value is one. Without bits there is no sign. -/
def constIndex (m : Module) (v : ValueId) : Except Fault (Option Int) :=
  match m.get? v with
  | some (.const t (.int n)) =>
    match m.resolve t with
    | .int 0 => .error .signless
    | .int bits => .ok (some (signed bits (truncate bits n)))
    | _ => .ok none
  | _ => .ok none

/-- The low 64 bits of a number, with their sign. -/
def word (n : Int) : Int :=
  n.bmod (twoPow 64)

def widthOrFault (s : Setting) (t : Ty) : Analyze Nat :=
  match s.width? t with
  | some w => pure w
  | none => throw (.nonIntegerType t.text)

section Express

variable (s : Setting) (lookup : ValueId → Analyze Handle)

def extend (x : ValueId) (target : Ty) (withSign : Bool) : Analyze Handle := do
  let f ← lookup x
  let dw ← widthOrFault s target
  let k := subWidth dw (← build (Formula.width f))
  build (if withSign then Formula.sext f k else Formula.zext f k)

/-- Between pointers and integers: cut or filled with zeros to the width of the target. -/
def reinterpret (x : ValueId) (target : Ty) : Analyze Handle := do
  let f ← lookup x
  let sw ← build (Formula.width f)
  let dw ← widthOrFault s target
  let same := (s.extent (s.module.typeOf x)).bits == (s.extent target).bits
  build (if sw = dw || same then Formula.retain f
    else if dw < sw then Formula.extract f (subWidth dw 1) 0
    else Formula.zext f (dw - sw))

/-- An index, cut or filled with its sign to the width of a pointer. -/
def pointerIndex (fields : LogFields) (v : ValueId) : Analyze Handle := do
  let f ← lookup v
  let w ← build (Formula.width f)
  let p := s.layout.pointerBits
  if w < p then
    s.logEntry (fields.put "width" (.number w)) "sign extending pointer index"
    build (Formula.sext f (p - w))
  else if p < w then
    s.logEntry (fields.put "width" (.number w)) "truncating pointer index"
    build (Formula.extract f (subWidth p 1) 0)
  else build (Formula.retain f)

/-- What one index steps over: a field of a struct, or elements of a type. -/
inductive Stride where
  | field (offset : Nat) (type : Ty)
  | elements (type : Ty)

/-- How index `v` steps into type `t`; the first index steps over whole elements. -/
def stride (owner : ValueId) (t : Ty) (isFirst : Bool) (v : ValueId) : Analyze Stride := do
  if isFirst then return .elements t
  match s.module.resolve t with
  | .struct packed fields =>
    match ← constIndex s.module v with
    | none => throw (.structIndex (← s.ident owner))
    | some i =>
      match s.layout.fieldOffset ((Ty.struct packed fields).closed s.module.types) (word i) with
      | .ok offset => return .field offset (fields.getD (word i).toNat .void)
      | .error e => throw e
  | .bodiless =>
    match ← constIndex s.module v with
    | none => throw (.structIndex (← s.ident owner))
    | some i => throw (.fieldRange (word i) 0)
  | .array _ e => return .elements e
  | .vector _ _ e => return .elements e
  | _ => throw (.nonAggregate t.text)

/-- Adds the indices to an address, of which the reference is passed on. Constant contributions
are summed up in `offset`. -/
def steps (owner : ValueId) (fields : LogFields) : List ValueId → Bool → Ty → Handle → Int →
    Analyze (Handle × Int)
  | [], _, _, addr, offset => pure (addr, offset)
  | v :: vs, isFirst, t, addr, offset => do
    match ← stride s owner t isFirst v with
    | .field o t => steps owner fields vs false t addr (offset + o)
    | .elements e =>
      let size := (s.extent e).alloc
      match ← constIndex s.module v with
      | some c => steps owner fields vs false e addr (offset + c * size)
      | none =>
        let index ← pointerIndex s lookup fields v
        let scale ← build (Formula.const s.layout.pointerBits size)
        let term ← build (Formula.arith .mul index scale)
        let next ← build (Formula.arith .add addr term)
        build (Formula.release [index, scale, term, addr])
        steps owner fields vs false e next offset

/-- An address computation: base plus indices times sizes plus the constant offset. -/
def address (v : ValueId) (elem : Ty) (base : ValueId) (indices : List ValueId) : Analyze Handle := do
  let fields := s.fields.put "inst" (.text (← s.ident v))
  let addr ← build (Formula.retain (← lookup base))
  let (addr, offset) ← steps s lookup v fields indices true elem addr 0
  if offset = 0 then pure addr
  else
    s.logEntry (fields.put "offset" (.text (toString offset))) "constant pointer offset"
    let k ← build (Formula.const s.layout.pointerBits offset)
    let sum ← build (Formula.arith .add addr k)
    build (Formula.release [addr, k])
    pure sum

def binary (op : Formula.Binary) (x y : ValueId) : Analyze Handle := do
  let f ← lookup x
  let g ← lookup y
  build (Formula.binary op f g)

def ofInst (v : ValueId) : Inst ValueId → Analyze Handle
  | .arith op _ x y => binary lookup (.arith op) x y
  | .icmp (.known op) x y => binary lookup (.compare op) x y
  | .icmp p _ _ => throw (.predicate p.text)
  | .gep _ elem base indices => address s lookup v elem base indices
  | .cast .trunc x target => do
    let f ← lookup x
    build (Formula.extract f (subWidth (← widthOrFault s target) 1) 0)
  | .cast .zext x target => extend s lookup x target false
  | .cast .sext x target => extend s lookup x target true
  | .cast .ptrtoint x target => reinterpret s lookup x target
  | .cast .inttoptr x target => reinterpret s lookup x target
  | .cast .bitcast x _ => do
    match s.width? (s.module.typeOf x) with
    | none => free s v
    | some _ => build (Formula.retain (← lookup x))
  | .select _ c x y => do
    let c ← lookup c
    let x ← lookup x
    let y ← lookup y
    build (Formula.ite c x y)
  | .extractValue _ _ => do
    match s.module.lineText v with
    | some line =>
      s.logEntry (s.fields.put "inst" (.text line)) "extractvalue degraded to free variable"
      free s v
    | none => throw .unprintable
  | _ => free s v

def express (v : ValueId) : Analyze Handle := do
  match s.width? (s.module.typeOf v) with
  | none => free s v
  | some _ =>
    match s.module.get? v with
    | some (.inst _ _ i _) => ofInst s lookup v i
    | some (.const t (.int n)) =>
      match s.module.resolve t with
      | .int bits => build (Formula.const bits n)
      | _ => free s v
    | some (.const _ .null) => build (Formula.const s.layout.pointerBits 0)
    | some (.const _ (.gep _ elem base indices)) =>
      address s lookup v elem base (indices.map Prod.snd)
    | _ => free s v

end Express

/-- The formula of a value; its reference stays with the engine. -/
def lookupFrom (s : Setting) : Nat → ValueId → Analyze Handle
  | 0, _ => throw .endless
  | depth + 1, v => do
    match (← get).values.bind (List.lookup v) with
    | some f => pure f
    | none =>
      let f ← express s (lookupFrom s depth) v
      match (← get).values with
      | some _ =>
        modify fun b => { b with values := b.values.map ((v, f) :: ·) }
        pure f
      | none => throw .engineClosed

def lookup (s : Setting) (v : ValueId) : Analyze Handle :=
  lookupFrom s (s.module.defs.size + 1) v

/-- The formula of a value, with a reference for the caller. -/
def value (s : Setting) (v : ValueId) : Analyze Handle := do
  build (Formula.retain (← lookup s v))

def closeValues : Analyze Unit := do
  let owned := (← get).values.getD []
  build (Formula.release (owned.map Prod.snd))
  modify fun b => { b with values := none }

end Faultline.Analysis
