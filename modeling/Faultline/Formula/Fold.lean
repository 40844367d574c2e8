/-
# Formula.Fold — arithmetic on constants

The value of a constant of width `w` is a number below `2 ^ w`. `truncate` cuts
an integer to that range by two's complement and `signed` reads it back with a
sign. The folds compute each operation over the integers and cut the result:
the totals of SMT-LIB hold, so a quotient by zero has all bits set (or is one,
when a negative number is divided with signs), a remainder by zero is the
dividend, and a shift by the width or more leaves nothing but the fill.
-/
import Faultline.Formula.Op
import Faultline.Power

namespace Faultline.Formula

def mask (w : Nat) : Nat :=
  twoPow w - 1

/-- The two's complement of `v` in `w` bits. A number that fits is kept without a division. -/
def truncate (w : Nat) : Int → Nat
  | .ofNat n => if n.log2 < w then n else n % twoPow w
  | .negSucc n => mask w - n % twoPow w

/-- A value of width `w`, read with its sign bit. -/
def signed (w v : Nat) : Int :=
  if v.testBit (w - 1) then (v : Int) - twoPow w else v

namespace Arith

def fold (op : Arith) (w x y : Nat) : Nat :=
  match op with
  | .add => truncate w (x + y)
  | .sub => truncate w ((x : Int) - y)
  | .mul => truncate w (x * y)
  | .udiv => if y = 0 then mask w else x / y
  | .urem => if y = 0 then x else x % y
  | .sdiv =>
    if y = 0 then (if signed w x < 0 then 1 else mask w)
    else truncate w ((signed w x).tdiv (signed w y))
  | .srem => if y = 0 then x else truncate w ((signed w x).tmod (signed w y))
  | .and => x &&& y
  | .or => x ||| y
  | .xor => x ^^^ y
  | .shl => if w ≤ y then 0 else truncate w (x <<< y : Nat)
  | .lshr => if w ≤ y then 0 else x >>> y
  | .ashr =>
    if w ≤ y then (if signed w x < 0 then mask w else 0)
    else truncate w (signed w x >>> y)

end Arith

namespace Compare

def fold (op : Compare) (w x y : Nat) : Bool :=
  match op with
  | .eq => x == y
  | .ne => x != y
  | .ult => x < y
  | .ule => x ≤ y
  | .ugt => y < x
  | .uge => y ≤ x
  | .slt => signed w x < signed w y
  | .sle => signed w x ≤ signed w y
  | .sgt => signed w y < signed w x
  | .sge => signed w y ≤ signed w x

end Compare

end Faultline.Formula
