/-
# Formula.Op — the operations of the formula language

A formula is a bit-vector term of the quantifier-free SMT-LIB logic of fixed widths.

Every operation has a code and an SMT-LIB name. Codes are stable: a caller may hold
one that names no operation, and then `label` still gives it a text.
-/

namespace Faultline.Formula

/-- Operations that keep the width of their two operands. -/
inductive Arith where
  | add | sub | mul | udiv | sdiv | urem | srem | and | or | xor | shl | lshr | ashr
  deriving DecidableEq, Inhabited

/-- Comparisons of two operands of one width; the result is one bit. -/
inductive Compare where
  | eq | ne | ult | ule | ugt | uge | slt | sle | sgt | sge
  deriving DecidableEq, Inhabited

inductive Op where
  | const | var | not | neg | zext | sext | extract | ite
  | arith (op : Arith)
  | compare (op : Compare)
  deriving DecidableEq, Inhabited

inductive Binary where
  | arith (op : Arith)
  | compare (op : Compare)
  deriving DecidableEq, Inhabited

def Arith.all : List Arith :=
  [.add, .sub, .mul, .udiv, .sdiv, .urem, .srem, .and, .or, .xor, .shl, .lshr, .ashr]

def Compare.all : List Compare :=
  [.eq, .ne, .ult, .ule, .ugt, .uge, .slt, .sle, .sgt, .sge]

def Arith.code : Arith → Nat
  | .add => 10 | .sub => 11 | .mul => 12 | .udiv => 13 | .sdiv => 14 | .urem => 15 | .srem => 16
  | .and => 17 | .or => 18 | .xor => 19 | .shl => 20 | .lshr => 21 | .ashr => 22

def Compare.code : Compare → Nat
  | .eq => 25 | .ne => 26 | .ult => 27 | .ule => 28 | .ugt => 29 | .uge => 30
  | .slt => 31 | .sle => 32 | .sgt => 33 | .sge => 34

def Arith.name : Arith → String
  | .add => "bvadd" | .sub => "bvsub" | .mul => "bvmul" | .udiv => "bvudiv" | .sdiv => "bvsdiv"
  | .urem => "bvurem" | .srem => "bvsrem" | .and => "bvand" | .or => "bvor" | .xor => "bvxor"
  | .shl => "bvshl" | .lshr => "bvlshr" | .ashr => "bvashr"

def Compare.name : Compare → String
  | .eq => "=" | .ne => "distinct" | .ult => "bvult" | .ule => "bvule" | .ugt => "bvugt"
  | .uge => "bvuge" | .slt => "bvslt" | .sle => "bvsle" | .sgt => "bvsgt" | .sge => "bvsge"

namespace Binary

def toOp : Binary → Op
  | .arith op => .arith op
  | .compare op => .compare op

def isCompare : Binary → Bool
  | .arith _ => false
  | .compare _ => true

def name : Binary → String
  | .arith op => op.name
  | .compare op => op.name

end Binary

namespace Op

def all : List Op :=
  [.const, .var, .not, .neg, .zext, .sext, .extract, .ite]
    ++ Arith.all.map .arith ++ Compare.all.map .compare

def code : Op → Nat
  | .const => 1 | .var => 2 | .not => 3 | .neg => 4 | .zext => 5 | .sext => 6 | .extract => 7
  | .ite => 8
  | .arith op => op.code
  | .compare op => op.code

def name : Op → String
  | .const => "const" | .var => "var" | .not => "bvnot" | .neg => "bvneg"
  | .zext => "zero_extend" | .sext => "sign_extend" | .extract => "extract" | .ite => "ite"
  | .arith op => op.name
  | .compare op => op.name

def ofCode? (code : Int) : Option Op :=
  all.find? fun op => (op.code : Int) == code

def ofName? (name : String) : Option Op :=
  all.find? fun op => op.name == name

def binary? : Op → Option Binary
  | .arith op => some (.arith op)
  | .compare op => some (.compare op)
  | _ => none

def isArith : Op → Bool
  | .arith _ => true
  | _ => false

def isCompare : Op → Bool
  | .compare _ => true
  | _ => false

/-- The text of a code: the name of the operation, or the bare code in angle brackets. -/
def label (code : Int) : String :=
  match ofCode? code with
  | some op => op.name
  | none => "Op<" ++ toString code ++ ">"

end Op

theorem Op.mem_all (op : Op) : op ∈ Op.all := by
  cases op with
  | arith a => cases a <;> decide
  | compare c => cases c <;> decide
  | _ => decide

/-- A code is read back as its operation. -/
theorem Op.ofCode?_code (op : Op) : Op.ofCode? op.code = some op := by
  cases op with
  | arith a => cases a <;> decide
  | compare c => cases c <;> decide
  | _ => decide

end Faultline.Formula
