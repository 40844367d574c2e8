/-
# Formula.Overflow — does an operation leave its width?

Six predicates of two operands of one width. Addition and subtraction are redone
with one more bit, multiplication with twice the bits, and the predicate says
that the wider result is not the extension of the narrow one. The intermediate
terms are given back in any case.
-/
import Faultline.Formula.Build

namespace Faultline.Formula

def sameWidth (a b : Handle) : Build Nat := do
  let wa ← width a
  let wb ← width b
  need (wa = wb) (.operandWidths wa wb)
  pure wa

/-- Combines both operands with `k` more bits each, and tests the result. -/
def inWider (ext : Handle → Nat → Build Handle) (k : Nat) (op : Arith) (a b : Handle)
    (test : Handle → Build Handle) : Build Handle :=
  keeping (ext a k) fun x =>
    keeping (ext b k) fun y =>
      keeping (arith op x y) test

/-- Bits `w` and `w - 1` of `f` differ. -/
def topBitsDiffer (f : Handle) (w : Nat) : Build Handle :=
  keeping (extract f w w) fun hi =>
    keeping (extract f (w - 1) (w - 1)) fun lo =>
      compare .ne hi lo

/-- Of `2 * w` bits, some in the high half are set. -/
def highHalfSet (f : Handle) (w : Nat) : Build Handle :=
  keeping (extract f (subWidth (addWidth w w) 1) w) fun hi =>
    keeping (const w 0) fun clear =>
      compare .ne hi clear

/-- Of `2 * w` bits, those in the high half are not all the sign of the low half. -/
def outgrowsLowHalf (f : Handle) (w : Nat) : Build Handle :=
  keeping (extract f (w - 1) 0) fun lo =>
    keeping (sext lo w) fun back =>
      compare .ne f back

def uaddOverflow (a b : Handle) : Build Handle := do
  let w ← sameWidth a b
  inWider zext 1 .add a b fun sum => extract sum w w

def saddOverflow (a b : Handle) : Build Handle := do
  let w ← sameWidth a b
  inWider sext 1 .add a b fun sum => topBitsDiffer sum w

def usubOverflow (a b : Handle) : Build Handle := do
  let _ ← sameWidth a b
  compare .ult a b

def ssubOverflow (a b : Handle) : Build Handle := do
  let w ← sameWidth a b
  inWider sext 1 .sub a b fun difference => topBitsDiffer difference w

def umulOverflow (a b : Handle) : Build Handle := do
  let w ← sameWidth a b
  inWider zext w .mul a b fun product => highHalfSet product w

def smulOverflow (a b : Handle) : Build Handle := do
  let w ← sameWidth a b
  inWider sext w .mul a b fun product => outgrowsLowHalf product w

end Faultline.Formula
