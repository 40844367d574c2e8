/-
# Circuit.Word — arithmetic on words of literals

A word is a list of literals, least significant bit first. Addition is by
ripple carry, multiplication by shift and add, division by restoring division
with one more bit for the remainder, shifts by a barrel of choices and one last
choice for amounts of the width or more. Two words given to one operation have
the same length.
-/
import Faultline.Circuit.Basic

namespace Faultline.Circuit

abbrev Word := List Lit

namespace Word

def ofNat (n v : Nat) : Word :=
  (List.range n).map fun i => .ofBool (v.testBit i)

def zero (n : Nat) : Word :=
  List.replicate n .no

def not (x : Word) : Word :=
  x.map Lit.not

/-- `n` literals drawn anew. -/
def inputs : Nat → Draw Word
  | 0 => pure []
  | n + 1 => do
    let l ← input
    pure (l :: (← inputs n))

def sign (x : Word) : Lit :=
  x.getLastD .no

def zipWithM (op : Lit → Lit → Draw Lit) : Word → Word → Draw Word
  | a :: x, b :: y => do
    let l ← op a b
    pure (l :: (← zipWithM op x y))
  | _, _ => pure []

/-- `t` if `s`, otherwise `e`, bit by bit. -/
def mux (s : Lit) (t e : Word) : Draw Word :=
  zipWithM (choice s) t e

/-- The sum of `x`, `y` and the carry, with the carry out. -/
def addCarry : Word → Word → Lit → Draw (Word × Lit)
  | a :: x, b :: y, carry => do
    let t ← xor a b
    let s ← xor t carry
    let out ← or (← and a b) (← and carry t)
    let (sum, out) ← addCarry x y out
    pure (s :: sum, out)
  | _, _, carry => pure ([], carry)

def add (x y : Word) : Draw Word :=
  Prod.fst <$> addCarry x y .no

def sub (x y : Word) : Draw Word :=
  Prod.fst <$> addCarry x (not y) .yes

def neg (x : Word) : Draw Word :=
  Prod.fst <$> addCarry (not x) (zero x.length) .yes

/-- `x` moved up by `i` places and kept where `b` holds. -/
def partialProduct (x : Word) (i : Nat) (b : Lit) : Draw Word := do
  pure (zero (min i x.length) ++ (← (x.take (x.length - i)).mapM fun a => and a b))

/-- Adds `x` times the bits `y`, of which the first has place `i`, to `acc`. -/
def mulFrom (x : Word) : Word → Nat → Word → Draw Word
  | [], _, acc => pure acc
  | b :: y, i, acc =>
    if b = .no then mulFrom x y (i + 1) acc
    else do
      let acc ← add acc (← partialProduct x i b)
      mulFrom x y (i + 1) acc

def mul (x y : Word) : Draw Word :=
  mulFrom x y 0 (zero x.length)

/-- Takes the bits of the dividend from the most significant one on, with the complement of the
divisor and the remainder so far; gives the quotient bits in the same order, and the remainder. -/
def divideFrom (ny : Word) : List Lit → Word → Draw (List Lit × Word)
  | [], r => pure ([], r)
  | b :: bs, r => do
    let shifted := b :: r
    let (diff, fits) ← addCarry shifted ny .yes
    let r ← mux fits (diff.take r.length) (shifted.take r.length)
    let (q, r) ← divideFrom ny bs r
    pure (fits :: q, r)

/-- Quotient and remainder without signs. A divisor of zero fits at every place. -/
def udivrem (x y : Word) : Draw (Word × Word) := do
  let (q, r) ← divideFrom (not (y ++ [.no])) x.reverse (zero x.length)
  pure (q.reverse, r)

/-- Quotient toward zero and the remainder with the sign of the dividend. -/
def sdivrem (x y : Word) : Draw (Word × Word) := do
  let sx := sign x
  let sy := sign y
  let ax ← mux sx (← neg x) x
  let ay ← mux sy (← neg y) y
  let (q, r) ← udivrem ax ay
  let q ← mux (← xor sx sy) (← neg q) q
  let r ← mux sx (← neg r) r
  pure (q, r)

def eqFrom : Word → Word → Lit → Draw Lit
  | a :: x, b :: y, m => do
    let m ← and m (← xor a b).not
    eqFrom x y m
  | _, _, m => pure m

def eq (x y : Word) : Draw Lit :=
  eqFrom x y .yes

/-- `x` is less than `y` exactly if their difference borrows. -/
def ult (x y : Word) : Draw Lit := do
  pure (← addCarry x (not y) .yes).2.not

/-- Flipping the sign bits turns the signed order into the unsigned one. -/
def flipSign (x : Word) : Word :=
  x.dropLast ++ (x.getLast?.map Lit.not).toList

def slt (x y : Word) : Draw Lit :=
  ult (flipSign x) (flipSign y)

inductive Shift where
  | left | right

/-- `x` moved by `k` places; the places that become free take `fill`. -/
def moved {α : Type} (kind : Shift) (fill : α) (k : Nat) (x : List α) : List α :=
  match kind with
  | .left => (List.replicate k fill ++ x).take x.length
  | .right => x.drop k ++ List.replicate (min k x.length) fill

/-- One stage for each bit of the amount, of which the first has weight `k`, as long as the weight
is below the width. -/
def barrel (kind : Shift) (fill : Lit) : Word → Nat → Word → Draw Word
  | [], _, x => pure x
  | s :: amount, k, x =>
    if k < x.length then do
      let x ← mux s (moved kind fill k x) x
      barrel kind fill amount (2 * k) x
    else pure x

def shift (kind : Shift) (fill : Lit) (x amount : Word) : Draw Word := do
  let y ← barrel kind fill amount 1 x
  let beyond := (← ult amount (ofNat amount.length x.length)).not
  y.mapM fun b => choice beyond fill b

end Word

end Faultline.Circuit
