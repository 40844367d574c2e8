/-
# Text.Number — whole numbers as text

Digits are read from the left, and the first fault met counts: a character that is
no digit of the base, or a number that has passed its bound.

`integer` reads a number of 64 bits with sign. A base may be given in front, as in
`0x1f`, `0b11` and `0o17`; a leading zero alone also means base eight.
-/
import Faultline.Power

namespace Faultline.Text

inductive NumberFault where
  | form
  | range
  deriving DecidableEq, Inhabited

def digitValue? (c : Char) : Option Nat :=
  if c.isDigit then some (c.toNat - '0'.toNat)
  else if c.isAlpha then some (c.toLower.toNat - 'a'.toNat + 10)
  else none

def digitsFrom (base bound : Nat) : List Char → Nat → Except NumberFault Nat
  | [], n => .ok n
  | c :: cs, n =>
    match digitValue? c with
    | none => .error .form
    | some d =>
      if d ≥ base then .error .form
      else if base * n + d < bound then digitsFrom base bound cs (base * n + d)
      else .error .range

def digits (base bound : Nat) (cs : List Char) : Except NumberFault Nat :=
  if cs.isEmpty then .error .form else digitsFrom base bound cs 0

def decimal? (cs : List Char) : Option Int :=
  match cs with
  | '-' :: ds => (digits 10 (twoPow 63 + 1) ds).toOption.map fun n => -(n : Int)
  | '+' :: ds => (digits 10 (twoPow 63) ds).toOption.map Int.ofNat
  | ds => (digits 10 (twoPow 63) ds).toOption.map Int.ofNat

/-- The base a number announces, and what follows. -/
def baseOf : List Char → Nat × List Char
  | '0' :: c :: d :: cs =>
    match c.toLower with
    | 'b' => (2, d :: cs)
    | 'o' => (8, d :: cs)
    | 'x' => (16, d :: cs)
    | _ => (8, c :: d :: cs)
  | '0' :: cs => (8, cs)
  | cs => (10, cs)

/-- Underscores stand between digits only; a base in front counts as a digit. -/
def underscoresFit (isDigit : Char → Bool) : Bool → List Char → Bool
  | _, [] => true
  | afterDigit, '_' :: c :: cs => afterDigit && isDigit c && underscoresFit isDigit true cs
  | _, ['_'] => false
  | _, c :: cs => underscoresFit isDigit (isDigit c) cs

def separatorsFit (cs : List Char) : Bool :=
  match cs with
  | '0' :: c :: rest =>
    match c.toLower with
    | 'b' | 'o' => underscoresFit Char.isDigit true rest
    | 'x' => underscoresFit (fun c => (digitValue? c).any (· < 16)) true rest
    | _ => underscoresFit Char.isDigit false cs
  | cs => underscoresFit Char.isDigit false cs

def natural (cs : List Char) : Except NumberFault Nat := do
  if cs.isEmpty then throw .form
  let (base, rest) := baseOf cs
  let n ← digitsFrom base (twoPow 64) (rest.filter (· != '_')) 0
  if rest.contains '_' && !separatorsFit cs then throw .form
  pure n

def integer (s : String) : Except NumberFault Int := do
  let (negative, cs) := match s.toList with
    | '-' :: cs => (true, cs)
    | '+' :: cs => (false, cs)
    | cs => (false, cs)
  let n ← natural cs
  if negative then if n ≤ twoPow 63 then pure (-(n : Int)) else throw .range
  else if n < twoPow 63 then pure n else throw .range

end Faultline.Text
