/-
# Settings.Rounding — numbers with 53 significant bits

Fractions are rounded the way binary floating point does: to the nearest number
with 53 significant bits, a tie to the even one.
-/
import Faultline.Power

namespace Faultline

structure Ratio where
  num : Nat
  den : Nat
  deriving DecidableEq, Inhabited

namespace Ratio

def mul (a b : Ratio) : Ratio := ⟨a.num * b.num, a.den * b.den⟩

def floor (r : Ratio) : Nat := r.num / r.den

/-- The nearest fraction with 53 significant bits. Scaled up far enough the quotient has more bits
than that; the surplus is rounded away. -/
def round53 (r : Ratio) : Ratio :=
  if r.num = 0 then ⟨0, 1⟩
  else
    let up := 64 + Nat.log2 r.den
    let scaled := r.num * twoPow up
    let surplus := Nat.log2 (scaled / r.den) - 52
    let unit := r.den * twoPow surplus
    let whole := scaled / unit
    let rest := scaled % unit
    let whole := if 2 * rest > unit || (2 * rest = unit && whole % 2 = 1) then whole + 1 else whole
    ⟨whole * twoPow surplus, twoPow up⟩

end Ratio

end Faultline
