/-
# IR.Assembly.Real — floating-point constants

A constant is read with as many significant bits as its type has, to the nearest
value and a tie to the even one; in hexadecimal the bits themselves are given, with
a letter that tells of which type. It is written in decimal where the fewest digits
that read back are the value itself, and in hexadecimal otherwise.
-/
import Faultline.IR.Assembly.Literal

namespace Faultline.IR

structure Binary where
  mantissa : Nat
  exponent : Int
  deriving DecidableEq, Inhabited

/-- What a constant may be, apart from its sign. A number remembers with how many bits it was
read. -/
inductive Magnitude where
  | finite (x : Binary) (precision : Nat)
  | infinite
  | notANumber
  deriving DecidableEq, Inhabited

def bitLength (n : Nat) : Nat :=
  if n = 0 then 0 else Nat.log2 n + 1

/-- The quotient as a whole number, a tie to the even one. -/
def divideEven (num den : Nat) : Nat :=
  let q := num / den
  let r := num % den
  if 2 * r > den || (2 * r = den && q % 2 = 1) then q + 1 else q

/-- The nearest number with at most `precision` significant bits. -/
def nearest (precision num den : Nat) : Binary :=
  if num = 0 then ⟨0, 0⟩
  else
    let up := precision + 1 + bitLength den
    let scaled := num * twoPow up
    let surplus := bitLength (scaled / den) - precision
    ⟨divideEven scaled (den * twoPow surplus), (surplus : Int) - up⟩

/-! ## Bits -/

structure Format where
  precision : Nat
  exponentBits : Nat

namespace Format

def half : Format := ⟨11, 5⟩

def double : Format := ⟨53, 11⟩

def extended : Format := ⟨64, 15⟩

def quadruple : Format := ⟨113, 15⟩

def bias (f : Format) : Nat :=
  twoPow (f.exponentBits - 1) - 1

def infinity (f : Format) : Nat :=
  (twoPow f.exponentBits - 1) * twoPow (f.precision - 1)

def notANumber (f : Format) : Nat :=
  f.infinity + twoPow (f.precision - 2)

/-- The exponent of the last bit a number of this size has, and the number in units of it. -/
def units (f : Format) (x : Binary) : Int × Nat :=
  let last := max (x.exponent + bitLength x.mantissa - f.precision) (2 - f.bias - f.precision)
  let n := if last ≤ x.exponent then x.mantissa * twoPow (x.exponent - last).toNat
    else divideEven x.mantissa (twoPow (last - x.exponent).toNat)
  (last, n)

/-- The bits of a number without sign; what is too large is infinite. -/
def encode (f : Format) (x : Binary) : Nat :=
  let (last, n) := f.units x
  let implied := twoPow (f.precision - 1)
  if n < implied then n
  else min f.infinity ((last + f.precision - 1 + f.bias).toNat * implied + (n - implied))

def decode (f : Format) (bits : Nat) : Magnitude :=
  let implied := twoPow (f.precision - 1)
  let e := bits / implied
  let n := bits % implied
  if e = 0 then .finite ⟨n, 2 - f.bias - f.precision⟩ f.precision
  else if e = twoPow f.exponentBits - 1 then if n = 0 then .infinite else .notANumber
  else .finite ⟨implied + n, (e : Int) - f.bias - f.precision + 1⟩ f.precision

def bits (f : Format) : Magnitude → Nat
  | .finite x _ => f.encode x
  | .infinite => f.infinity
  | .notANumber => f.notANumber

def signedBits (f : Format) (negative : Bool) (x : Magnitude) : Nat :=
  f.bits x + (if negative then twoPow (f.precision + f.exponentBits - 1) else 0)

end Format

/-! ## Decimal digits -/

structure Decimal where
  digits : Nat
  exponent : Int
  deriving DecidableEq, Inhabited

def stripZeros : Nat → Decimal → Decimal
  | 0, d => d
  | fuel + 1, d => if d.digits % 10 = 0 then stripZeros fuel ⟨d.digits / 10, d.exponent + 1⟩ else d

/-- The decimal expansion of a number, which always ends. -/
def expansion (x : Binary) : Decimal :=
  let d : Decimal :=
    if 0 ≤ x.exponent then ⟨x.mantissa * twoPow x.exponent.toNat, 0⟩
    else ⟨x.mantissa * Nat.pow 5 (-x.exponent).toNat, x.exponent⟩
  stripZeros (Nat.toDigits 10 d.digits).length d

/-- Whether a · 10^i reaches half of the unit in the last place, 2^j. -/
def compareHalf (a : Nat) (i : Int) (j : Int) : Ordering :=
  compare (2 * a * Nat.pow 10 i.toNat * twoPow (-j).toNat) (twoPow j.toNat * Nat.pow 10 (-i).toNat)

/-- The decimal expansion, unless fewer digits also read back to the number. -/
def shortDigits? (x : Binary) (precision : Nat) : Option Decimal :=
  let d := expansion x
  if d.digits < 10 then some d
  else
    let unit := x.exponent + bitLength x.mantissa - precision
    let isEven := bitLength x.mantissa < precision || x.mantissa % 2 = 0
    let readsBack := fun (distance : Nat) =>
      match compareHalf distance d.exponent unit with
      | .lt => true
      | .eq => isEven
      | .gt => false
    let low := d.digits % 10
    if readsBack low || readsBack (10 - low) then none else some d

def exponentText (e : Int) : String :=
  let digits := toString e.natAbs
  "e" ++ (if e < 0 then "-" else "+") ++ (if digits.length < 2 then "0" ++ digits else digits)

/-- Exponents from minus four to five are written by position; there is always a point. -/
def Decimal.text (d : Decimal) : String :=
  let cs := Nat.toDigits 10 d.digits
  let e := d.exponent + cs.length - 1
  let pointed := fun (whole fraction : List Char) =>
    String.ofList (if whole.isEmpty then ['0'] else whole) ++ "."
      ++ String.ofList (if fraction.isEmpty then ['0'] else fraction)
  if d.digits = 0 then "0.0"
  else if e < -4 || 6 ≤ e then pointed (cs.take 1) (cs.drop 1) ++ exponentText e
  else if e < 0 then pointed [] (List.replicate (-e - 1).toNat '0' ++ cs)
  else
    let whole := (e + 1).toNat
    pointed (cs.take whole ++ List.replicate (whole - cs.length) '0') (cs.drop whole)

/-! ## Constants -/

/-- Exponents beyond this are not computed with. -/
def exponentLimit : Nat := 100000

def readDecimal (precision : Nat) (cs : List Char) : Magnitude :=
  let whole := cs.takeWhile Char.isDigit
  let rest := (cs.drop whole.length).drop 1
  let fraction := rest.takeWhile Char.isDigit
  let power : Int := match rest.drop fraction.length with
    | _ :: '-' :: ds => -((String.ofList ds).toNat?.getD 0 : Int)
    | _ :: '+' :: ds => (String.ofList ds).toNat?.getD 0
    | _ :: ds => (String.ofList ds).toNat?.getD 0
    | [] => 0
  let n := (String.ofList (whole ++ fraction)).toNat?.getD 0
  let e := power - fraction.length
  if n = 0 then .finite ⟨0, 0⟩ precision
  else if exponentLimit < e.natAbs then if e < 0 then .finite ⟨0, 0⟩ precision else .infinite
  else .finite (nearest precision (n * Nat.pow 10 e.toNat) (Nat.pow 10 (-e).toNat)) precision

def hexNumber (cs : List Char) : Nat :=
  cs.foldl (fun n c => 16 * n + (Text.digitValue? c).getD 0) 0

def FloatKind.precision : FloatKind → Nat
  | .half => 11 | .float => 24 | .double => 53 | .x86fp80 => 64 | .fp128 => 113 | .ppcfp128 => 106

def hexPadded (count n : Nat) : String :=
  let digits := hexText n
  String.ofList (List.replicate (count - digits.length) '0') ++ digits

/-- A number is the sum of two: the nearest one and what is left. -/
def doubled (negative : Bool) (x : Binary) : Nat × Nat :=
  let high := nearest 53 (x.mantissa * twoPow x.exponent.toNat) (twoPow (-x.exponent).toNat)
  let e := min x.exponent high.exponent
  let a := x.mantissa * twoPow (x.exponent - e).toNat
  let b := high.mantissa * twoPow (high.exponent - e).toNat
  let low : Binary := ⟨if b ≤ a then a - b else b - a, e⟩
  (Format.double.signedBits negative (.finite high 53),
    if a = b then 0 else Format.double.signedBits (negative != decide (a < b)) (.finite low 53))

def hexReal (kind : FloatKind) (negative : Bool) (x : Magnitude) : String :=
  match kind with
  | .half => "0xH" ++ hexPadded 4 (Format.half.signedBits negative x)
  | .float =>
    let x := match x with
      | .finite y _ => .finite (nearest 24 (y.mantissa * twoPow y.exponent.toNat) (twoPow (-y.exponent).toNat)) 24
      | x => x
    "0x" ++ hexText (Format.double.signedBits negative x)
  | .double => "0x" ++ hexText (Format.double.signedBits negative x)
  | .x86fp80 =>
    let (head, tail) := match x with
      | .finite y _ =>
        let (last, n) := Format.extended.units y
        (if n < twoPow 63 then 0 else (last + 63 + Format.extended.bias).toNat, n)
      | .infinite => (0x7FFF, twoPow 63)
      | .notANumber => (0x7FFF, twoPow 63 + twoPow 62)
    "0xK" ++ hexPadded 4 (head + (if negative then 0x8000 else 0)) ++ hexPadded 16 tail
  | .fp128 => "0xL" ++ hexPadded 32 (Format.quadruple.signedBits negative x)
  | .ppcfp128 =>
    let (high, low) := match x with
      | .finite y _ => doubled negative y
      | x => (Format.double.signedBits negative x, 0)
    "0xM" ++ hexPadded 16 high ++ hexPadded 16 low

/-! ## Reading and writing -/

structure Real where
  negative : Bool
  magnitude : Magnitude
  deriving DecidableEq, Inhabited

inductive RealFault where
  | short
  /-- A part has too many digits, or none. -/
  | range
  deriving DecidableEq, Inhabited

def hexBelow (bound : Nat) (cs : List Char) : Except RealFault Nat :=
  if cs.isEmpty || bound ≤ hexNumber cs then .error .range else .ok (hexNumber cs)

def hexParts (count : Nat) (cs : List Char) : Except RealFault (Nat × Nat) := do
  if cs.length < count then throw .short
  let high ← hexBelow (twoPow 64) (cs.take count)
  pure (high, ← hexBelow (twoPow 64) (cs.drop count))

namespace Real

def ofBits (f : Format) (bits : Nat) : Real :=
  let size := f.precision + f.exponentBits - 1
  ⟨bits.testBit size, f.decode (bits % twoPow size)⟩

/-- The extended format has its leading bit written out. -/
def ofExtended (head tail : Nat) : Real :=
  let e := head % 0x8000
  let x := if e = 0x7FFF then if tail % twoPow 63 = 0 then Magnitude.infinite else .notANumber
    else .finite ⟨tail, (max e 1 : Nat) - (Format.extended.bias : Int) - 63⟩ 64
  ⟨head.testBit 15, x⟩

def ofPair (high low : Nat) : Real :=
  let a := ofBits .double high
  let b := ofBits .double low
  match a.magnitude, b.magnitude with
  | .finite x _, .finite y _ =>
    let e := min x.exponent y.exponent
    let whole := fun (negative : Bool) (z : Binary) =>
      let n : Int := z.mantissa * twoPow (z.exponent - e).toNat
      if negative then -n else n
    let sum := whole a.negative x + whole b.negative y
    ⟨if sum = 0 then a.negative else sum < 0, .finite ⟨sum.natAbs, e⟩ 106⟩
  | _, _ => a

def read (kind : FloatKind) (literal : List Char) : Except RealFault Real :=
  match literal with
  | '0' :: 'x' :: 'K' :: cs => do
    let (head, tail) ← hexParts 4 cs
    pure (ofExtended head tail)
  | '0' :: 'x' :: 'L' :: cs => do
    let (high, low) ← hexParts 16 cs
    pure (ofBits .quadruple (high * twoPow 64 + low))
  | '0' :: 'x' :: 'M' :: cs => do
    let (high, low) ← hexParts 16 cs
    pure (ofPair high low)
  | '0' :: 'x' :: 'H' :: cs => do pure (ofBits .half (← hexBelow (twoPow 16) cs))
  | '0' :: 'x' :: cs => do pure (ofBits .double (← hexBelow (twoPow 64) cs))
  | '-' :: cs => .ok ⟨true, readDecimal kind.precision cs⟩
  | '+' :: cs => .ok ⟨false, readDecimal kind.precision cs⟩
  | cs => .ok ⟨false, readDecimal kind.precision cs⟩

def text (kind : FloatKind) (x : Real) : String :=
  let inHex := hexReal kind x.negative x.magnitude
  match kind, x.magnitude with
  | .x86fp80, _ | .fp128, _ | .ppcfp128, _ => inHex
  | _, .finite y precision =>
    match shortDigits? y precision with
    | some d => (if x.negative then "-" else "") ++ d.text
    | none => inHex
  | _, _ => inHex

end Real

end Faultline.IR
