/-
# IR.Traverse — replacing the operands of a value

`Inst.traverse f` and `Term.traverse f` apply `f` to every operand, blocks
included, in the order in which they are written.
-/
import Faultline.IR.Basic

namespace Faultline.IR

variable {m : Type → Type} [Monad m] {ν μ : Type} (f : ν → m μ)

def Piece.traverse : Piece ν → m (Piece μ)
  | .text s => pure (.text s)
  | .type t => pure (.type t)
  | .typed v => do pure (.typed (← f v))
  | .bare v => do pure (.bare (← f v))
  | .label v => do pure (.label (← f v))

def traversePieces (ps : List (Piece ν)) : m (List (Piece μ)) :=
  ps.mapM (Piece.traverse f)

def traversePairs (xs : List (ν × ν)) : m (List (μ × μ)) :=
  xs.mapM fun (x, y) => do pure (← f x, ← f y)

def Call.traverse (c : Call ν) : m (Call μ) := do
  let args ← c.args.mapM f
  let callee ← f c.callee
  pure ⟨c.lead, c.type, callee, args, ← traversePieces f c.trail⟩

def Inst.traverse : Inst ν → m (Inst μ)
  | .arith op flags x y => do pure (.arith op flags (← f x) (← f y))
  | .icmp p x y => do pure (.icmp p (← f x) (← f y))
  | .gep inbounds elem base indices => do pure (.gep inbounds elem (← f base) (← indices.mapM f))
  | .cast op x t => do pure (.cast op (← f x) t)
  | .select flags c t e => do pure (.select flags (← f c) (← f t) (← f e))
  | .phi flags t incoming => do pure (.phi flags t (← traversePairs f incoming))
  | .call c => do pure (.call (← c.traverse f))
  | .extractValue x path => do pure (.extractValue (← f x) path)
  | .other safe pieces => do pure (.other safe (← traversePieces f pieces))

def Term.traverse : Term ν → m (Term μ)
  | .ret none => pure (.ret none)
  | .ret (some x) => do pure (.ret (some (← f x)))
  | .br b => do pure (.br (← f b))
  | .condBr c t e => do pure (.condBr (← f c) (← f t) (← f e))
  | .switch x d cases => do pure (.switch (← f x) (← f d) (← traversePairs f cases))
  | .invoke c normal unwind => do pure (.invoke (← c.traverse f) (← f normal) (← f unwind))
  | .callbr c normal others => do pure (.callbr (← c.traverse f) (← f normal) (← others.mapM f))
  | .other pieces => do pure (.other (← traversePieces f pieces))

end Faultline.IR
