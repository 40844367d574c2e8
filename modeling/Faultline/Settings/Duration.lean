/-
# Settings.Duration — spans of time as text

A span is written as a sequence of decimal numbers, each with a unit: `1h30m`,
`2.5s`. It is a number of nanoseconds that fits a word of 64 bits with sign. A
fraction is worked out with 53 significant bits, each step rounded, and is then cut
to whole nanoseconds.
-/
import Faultline.Settings.Rounding
import Faultline.Text.Quoted

namespace Faultline

inductive DurationError where
  | malformed (text : String)
  | missingUnit (text : String)
  | unknownUnit (unit text : String)
  deriving DecidableEq, Inhabited

namespace Duration

/-! ## Wording -/

def hexByte (b : UInt8) : String :=
  "\\x" ++ String.ofList (Text.hexDigits false 2 b.toNat)

/-- Text in quotes. Control characters and characters outside ASCII are written as their bytes. -/
def quote (s : String) : String :=
  "\"" ++ String.join (s.toList.map fun c =>
    if c.toNat ≥ 128 || c.toNat < 32 then
      String.join ((String.singleton c).toUTF8.toList.map hexByte)
    else if c = '"' || c = '\\' then "\\" ++ String.singleton c
    else String.singleton c) ++ "\""

end Duration

def DurationError.message : DurationError → String
  | .malformed s => "time: invalid duration " ++ Duration.quote s
  | .missingUnit s => "time: missing unit in duration " ++ Duration.quote s
  | .unknownUnit u s => "time: unknown unit " ++ Duration.quote u ++ " in duration " ++ Duration.quote s

namespace Duration

def fraction (digits scale unit : Nat) : Nat :=
  ((Ratio.round53 ⟨digits, 1⟩).mul (Ratio.round53 ⟨unit, scale⟩)).round53.floor

/-! ## Reading -/

def units : List (String × Nat) :=
  [("ns", 1), ("us", 1000), ("µs", 1000), ("μs", 1000), ("ms", 1000000),
    ("s", 1000000000), ("m", 60000000000), ("h", 3600000000000)]

def bound : Nat := twoPow 63

def whole? (ds : List Char) : Option Nat :=
  ds.foldlM (fun n c =>
    let m := n * 10 + (c.toNat - '0'.toNat)
    if n > bound / 10 || m > bound then none else some m) 0

/-- A fraction divided by this much is less than a nanosecond of any unit. -/
def scaleLimit : Nat := Nat.pow 10 40

/-- Ten times a scale, with 53 significant bits. -/
def scaleUp (scale : Nat) : Nat :=
  if scale < scaleLimit then (Ratio.round53 ⟨10 * scale, 1⟩).floor else scale

/-- The digits after the point as a number, and the power of ten they are divided by, which is
rounded at each digit. Digits past the bound are left out. -/
def fractionDigits : List Char → Nat → Nat → Nat × Nat
  | [], n, scale => (n, scale)
  | c :: cs, n, scale =>
    let m := n * 10 + (c.toNat - '0'.toNat)
    if n > (bound - 1) / 10 || m > bound then (n, scale) else fractionDigits cs m (scaleUp scale)

def component (whole : String) (s : List Char) : Except DurationError (Nat × List Char) := do
  let before := s.takeWhile Char.isDigit
  let rest := s.dropWhile Char.isDigit
  let some n := whole? before | throw (.malformed whole)
  let (after, rest) := match rest with
    | '.' :: rest => (rest.takeWhile Char.isDigit, rest.dropWhile Char.isDigit)
    | rest => ([], rest)
  if before.isEmpty && after.isEmpty then throw (.malformed whole)
  let isUnit := fun (c : Char) => c != '.' && !c.isDigit
  let name := rest.takeWhile isUnit
  let rest := rest.dropWhile isUnit
  if name.isEmpty then throw (.missingUnit whole)
  let some unit := units.lookup (String.ofList name) | throw (.unknownUnit (String.ofList name) whole)
  if n > bound / unit then throw (.malformed whole)
  let (digits, scale) := fractionDigits after 0 1
  let total := n * unit + (if digits = 0 then 0 else fraction digits scale unit)
  if total > bound then throw (.malformed whole)
  pure (total, rest)

def components (whole : String) : Nat → List Char → Nat → Except DurationError Nat
  | _, [], sum => .ok sum
  | 0, _, _ => .error (.malformed whole)
  | fuel + 1, s, sum => do
    let (n, rest) ← component whole s
    let sum := (sum + n) % twoPow 64
    if sum > bound then throw (.malformed whole)
    components whole fuel rest sum

def parse (text : String) : Except DurationError Int := do
  let (negative, s) := match text.toList with
    | '-' :: s => (true, s)
    | '+' :: s => (false, s)
    | s => (false, s)
  if s = ['0'] then return 0
  if s.isEmpty then throw (.malformed text)
  let n ← components text s.length s 0
  if negative then return -(n : Int)
  if n ≥ bound then throw (.malformed text)
  return n

end Duration

end Faultline
