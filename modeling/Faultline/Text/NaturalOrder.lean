/-
# Text.NaturalOrder — names with numbers in them

Names are ordered byte by byte, but where both have a run of digits the runs are
compared as numbers: `x2` comes before `x10`. Of equal numbers the one with fewer
leading zeros comes first.
-/
import Faultline.Text.Bytes

namespace Faultline.Text

def isDigitByte (b : UInt8) : Bool :=
  48 ≤ b.toNat && b.toNat ≤ 57

def zeroByte : UInt8 := 48

/-- The order of two runs of digits as numbers, then by their leading zeros. -/
def compareDigits (a b : Bytes) : Ordering :=
  let x := a.dropWhile (· == zeroByte)
  let y := b.dropWhile (· == zeroByte)
  (compare x.length y.length).then ((compare x y).then (compare a.length b.length))

/-- Whether a name comes before another; each step of the comparison consumes a byte of both. -/
def naturalBeforeFrom : Nat → Bytes → Bytes → Bool
  | 0, _, _ => false
  | _, [], bs => !bs.isEmpty
  | _, _ :: _, [] => false
  | fuel + 1, a :: as, b :: bs =>
    if isDigitByte a && isDigitByte b then
      let x := (a :: as).takeWhile isDigitByte
      let y := (b :: bs).takeWhile isDigitByte
      match compareDigits x y with
      | .lt => true
      | .gt => false
      | .eq => naturalBeforeFrom fuel ((a :: as).drop x.length) ((b :: bs).drop y.length)
    else if a = b then naturalBeforeFrom fuel as bs
    else a < b

def naturalBefore (a b : Bytes) : Bool :=
  naturalBeforeFrom (a.length + b.length + 1) a b

def sortByName {α : Type} (name : α → Bytes) (xs : List α) : List α :=
  xs.mergeSort fun x y => !naturalBefore (name y) (name x)

end Faultline.Text
