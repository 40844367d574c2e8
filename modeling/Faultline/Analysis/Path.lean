/-
# Analysis.Path — when control reaches a block

The formula of a block says under which values of the free variables control gets
there along edges outside the cut: it is true for the entry, and otherwise the
disjunction over the incoming edges of the condition of the edge, the assignments
its phis make, and the formula of the block it comes from.

A block that is asked for while its own formula is being built lies on a cycle the
cut does not break, and is refused.
-/
import Faultline.Analysis.Value

namespace Faultline.Analysis

open IR (Module ValueId Term)
open Formula (Handle)

def terminatorOf? (s : Setting) (b : Nat) : Option (Term ValueId) :=
  match (s.graph.block b).term.bind s.module.get? with
  | some (.term _ _ t _) => some t
  | _ => none

/-- `f` joined with one term by `op`; both references are passed on. -/
def joined (op : Formula.Arith) (f term : Handle) : Analyze Handle := do
  let next ← build (Formula.arith op f term)
  build (Formula.release [f, term])
  pure next

def someCase (s : Setting) (x : Handle) (target : ValueId) : List (ValueId × ValueId) → Handle →
    Analyze Handle
  | [], f => pure f
  | (k, b) :: cases, f => do
    if b = target then
      let k ← lookup s k
      let eq ← build (Formula.compare .eq x k)
      someCase s x target cases (← joined .or f eq)
    else someCase s x target cases f

def noCase (s : Setting) (x : Handle) : List (ValueId × ValueId) → Handle → Analyze Handle
  | [], f => pure f
  | (k, _) :: cases, f => do
    let k ← lookup s k
    let ne ← build (Formula.compare .ne x k)
    noCase s x cases (← joined .and f ne)

/-- When the terminator of one block goes to another. -/
def edgeCondition (s : Setting) (source target : Nat) : Analyze Handle := do
  let dest := (s.graph.block target).id
  match terminatorOf? s source with
  | some (.condBr c t e) =>
    if t = e then build (Formula.ofBool true)
    else
      let cond ← lookup s c
      build (if t = dest then Formula.retain cond else Formula.not cond)
  | some (.switch x d cases) =>
    let x ← lookup s x
    let f ← someCase s x dest cases (← build (Formula.ofBool false))
    if d = dest then
      let other ← noCase s x cases (← build (Formula.ofBool true))
      joined .or f other
    else pure f
  | _ => build (Formula.ofBool true)

/-- The value is undefined, so nothing is known of it. -/
def isUndef (m : Module) (v : ValueId) : Bool :=
  match m.get? v with
  | some (.const _ .undef) => true
  | _ => false

/-- The values that come in from one block equal the phi. -/
def incomingEqual (s : Setting) (phi source : ValueId) : List (ValueId × ValueId) → Handle → Analyze Handle
  | [], f => pure f
  | (x, b) :: incoming, f => do
    if b = source && !isUndef s.module x then
      let x ← lookup s x
      let p ← lookup s phi
      let eq ← build (Formula.compare .eq x p)
      incomingEqual s phi source incoming (← joined .and f eq)
    else incomingEqual s phi source incoming f

/-- The assignments of the phis at the head of a list of instructions. -/
def phisEqual (s : Setting) (source : ValueId) : List ValueId → Handle → Analyze Handle
  | [], f => pure f
  | v :: vs, f => do
    match s.module.get? v with
    | some (.inst _ t (.phi _ _ incoming) _) =>
      match s.width? t with
      | some _ => phisEqual s source vs (← incomingEqual s v source incoming f)
      | none => phisEqual s source vs f
    | _ => pure f

/-- The assignments made on an edge. -/
def phiCondition (s : Setting) (source target : Nat) : Analyze Handle := do
  let f ← build (Formula.ofBool true)
  phisEqual s (s.graph.block source).id (s.graph.block target).insts.toList f

/-- The formula the path engine keeps for a block; the zero handle means none. -/
def kept (b : Nat) : Analyze Handle := do
  match (← get).paths with
  | none => throw .engineClosed
  | some paths => pure (paths.getD b 0)

def keep (b : Nat) (f : Handle) : Analyze Handle := do
  modify fun bench => { bench with paths := bench.paths.map fun p => p.setIfInBounds b f }
  pure f

/-- Adds the ways into block `b` through the listed predecessors to `f`. -/
def waysInto (s : Setting) (reach : Nat → Analyze Handle) (b : Nat) : List Nat → Handle → Analyze Handle
  | [], f => pure f
  | p :: preds, f => do
    if s.cut.has p b then waysInto s reach b preds f
    else
      let cond ← edgeCondition s p b
      let phis ← phiCondition s p b
      let edge ← build (Formula.arith .and cond phis)
      build (Formula.release [cond, phis])
      let before ← reach p
      let way ← build (Formula.arith .and edge before)
      let next ← build (Formula.arith .or f way)
      build (Formula.release [edge, way, f])
      waysInto s reach b preds next

/-- The formula of a block; its reference stays with the engine. `active` are the blocks being
built. -/
def reachFrom (s : Setting) : Nat → List Nat → Nat → Analyze Handle
  | 0, _, _ => throw .endless
  | depth + 1, active, b => do
    let f ← kept b
    if f ≠ 0 then pure f
    else if b = 0 then keep b (← build (Formula.ofBool true))
    else if active.contains b then throw (.unbrokenCycle (s.blockName b))
    else
      let f ← build (Formula.ofBool false)
      let f ← waysInto s (reachFrom s depth (b :: active)) b (s.graph.predsOf b) f
      keep b f

/-- The formula of a block of the function, with a reference for the caller. -/
def path (s : Setting) (block : ValueId) : Analyze Handle := do
  match s.graph.indexOf s.module block with
  | .error e => throw e
  | .ok b => build (Formula.retain (← reachFrom s (s.graph.size + 1) [] b))

def closePaths : Analyze Unit := do
  let owned := ((← get).paths.getD #[]).toList.filter (· ≠ 0)
  build (Formula.release owned)
  modify fun b => { b with paths := none }

end Faultline.Analysis
