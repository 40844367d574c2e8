/-
# Power — powers of two

`twoPow n` is the number of values that `n` bits can have.
-/

namespace Faultline

def twoPow (n : Nat) : Nat :=
  Nat.pow 2 n

theorem twoPow_zero : twoPow 0 = 1 := rfl

theorem twoPow_succ (n : Nat) : twoPow (n + 1) = twoPow n * 2 := rfl

theorem twoPow_pos (n : Nat) : 0 < twoPow n := by
  induction n with
  | zero => decide
  | succ n ih => rw [twoPow_succ]; omega

end Faultline
