/-
# IR.Assembly.Draft — values as they are written

While a module is being read its values are drafts. An operand that is a name stays
a name, because its definition may come later, and remembers the type that was
written before it. Constants are put into the table as they are met, parts before
wholes, so every draft can be given its type by going through the table once.
-/
import Faultline.IR.Assembly.Literal

namespace Faultline.IR.Assembly

open Text (Bytes)

inductive Expected where
  | any
  | type (t : Ty)
  /-- A pointer to the function that is called: `t` is its type or the type of its result. -/
  | callee (t : Ty) (args : List Ty)
  deriving Inhabited

inductive Ref where
  | id (v : ValueId)
  | local (expected : Expected) (name : Name)
  | global (name : Name)
  | block (func name : Name)
  | truth (expected : Expected) (b : Bool)
  | none (expected : Expected)
  deriving Inhabited

/-- An integer as it is written. A signed hexadecimal number has the sign bit of its type. -/
inductive Numeral where
  | decimal (n : Int)
  | hex (signed : Bool) (n : Nat)
  deriving DecidableEq, Inhabited

/-- What is known of the type of a result. -/
inductive Result where
  | type (t : Ty)
  /-- Bits that compare numbers, or as many as there are lanes. -/
  | comparison (floats : Bool) (t : Ty)
  | element (t : Ty)
  | vector (t : Ty)
  /-- Elements of a vector, as many as there are in the mask. -/
  | shuffled (t mask : Ty)
  /-- A part of an aggregate. -/
  | part (t : Ty) (path : List Nat)
  | pointee (t : Ty)
  | address (elem base : Ty) (indices : List (Ty × Ref))
  /-- The result of a call: the type of the function or of its result. -/
  | call (t : Ty)
  deriving Inhabited

inductive Aggregate where
  | struct | array | vector
  deriving DecidableEq, Inhabited

inductive Written where
  | int (n : Numeral)
  | real (text : List Char)
  | null
  | undef
  | zero
  | chars (s : Bytes)
  | aggregate (kind : Aggregate) (items : List Ref)
  | blockAddress (func block : Name)
  /-- Anything that needs no check. -/
  | pieces (ps : List (Piece Ref))
  | expr (result : Result) (ps : List (Piece Ref))
  | gep (inbounds : Bool) (elem base : Ty) (x : Ref) (indices : List (Bool × Ty × Ref))
  deriving Inhabited

inductive Draft where
  /-- A value that is known as it stands. -/
  | plain (d : Def Ref)
  | const (expected : Expected) (value : Written)
  | inst (name : Name) (result : Result) (inst : Inst Ref) (trail : List (Piece Ref))
  | term (name : Name) (result : Result) (term : Term Ref) (trail : List (Piece Ref))
  deriving Inhabited

def Ref.expect (e : Expected) : Ref → Ref
  | .local _ n => .local e n
  | .truth _ b => .truth e b
  | .none _ => .none e
  | r => r

def Draft.expect (e : Expected) : Draft → Draft
  | .const _ w => .const e w
  | d => d

end Faultline.IR.Assembly
