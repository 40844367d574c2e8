/-
# IR.Assembly.Literal — names and numbers in assembly text

A name of letters, digits and `$ . _ -` is written bare; any other name stands in
quotes, with the bytes that are not plain printable characters written in
hexadecimal. A name that looks like a number is quoted too, because unnamed values
are written as numbers.
-/
import Faultline.IR.Basic
import Faultline.Text.Number

namespace Faultline.IR

open Text (Bytes hexDigits utf8 codes)

def isNameChar (c : Char) : Bool :=
  c.isAlphanum || c == '$' || c == '.' || c == '_' || c == '-'

def isNameByte (b : UInt8) : Bool :=
  isNameChar (Char.ofNat b.toNat)

def codeByte (b : UInt8) : List Char :=
  '\\' :: hexDigits true 2 b.toNat

/-- A byte between quotes: itself if it is plain, otherwise two upper-case digits. -/
def escapeByte (b : UInt8) : List Char :=
  let n := b.toNat
  if 0x20 ≤ n && n ≤ 0x7e && n != 0x22 && n != 0x5c then [Char.ofNat n] else codeByte b

def escapeText (s : Bytes) : String :=
  String.ofList (s.flatMap escapeByte)

def quoteText (s : Bytes) : String :=
  "\"" ++ escapeText s ++ "\""

def nameText (s : Bytes) : String :=
  if s.all isNameByte then String.ofList (codes s) else quoteText s

/-- A decimal number of 64 bits. -/
def looksNumeric (s : Bytes) : Bool :=
  (Text.digits 10 (twoPow 64) (codes s)).isOk

namespace Name

def text : Name → String
  | .number n => toString n
  | .named s => if looksNumeric s then quoteText s else nameText s

def localText (n : Name) : String :=
  "%" ++ n.text

def globalText (n : Name) : String :=
  "@" ++ n.text

/-- A name without its mark. One that is a number with sign stands in quotes, to tell it from the
number of an unnamed value. -/
def plain : Name → Bytes
  | .number n => utf8 (toString n)
  | .named s =>
    match Text.decimal? (codes s) with
    | some n => utf8 ("\"" ++ toString n ++ "\"")
    | none => s

/-- The label that was given to a block; an unnamed one has none. -/
def label : Name → Bytes
  | .number _ => []
  | .named s => s

end Name

def tagText (s : Bytes) : String :=
  let part := fun (isFirst : Bool) (b : UInt8) =>
    if isNameByte b && !(isFirst && (Char.ofNat b.toNat).isDigit) then [Char.ofNat b.toNat] else codeByte b
  "!" ++ String.ofList ((s.take 1).flatMap (part true) ++ (s.drop 1).flatMap (part false))

/-! ## Integers -/

def distinct (cs : List Char) : Nat :=
  cs.eraseDups.length

/-- The share of digits of `n` that are different, among at most `most` digits. -/
def variety (base most n : Nat) : Float :=
  let digits := Nat.toDigits base n
  (distinct digits).toFloat / (min digits.length most).toFloat

/-- How different the digits of a number of `count` hexadecimal digits may be. -/
def varietyBound (count : Nat) : Float :=
  let count := min count 16
  let few : Nat := if count ≤ 6 then 2 else if count ≤ 10 then 3 else 4
  few.toFloat / count.toFloat

/-- Large numbers of few different hexadecimal digits. -/
def readsBetterInHex (n : Nat) : Bool :=
  if n < 4096 then false
  else
    let h := variety 16 16 n
    h ≤ varietyBound (Nat.toDigits 16 n).length + 0.01 && variety 10 10 n ≥ h + 0.2

def hexText (n : Nat) : String :=
  String.ofList ((Nat.toDigits 16 n).map Char.toUpper)

inductive Unwritable where
  /-- A truth value other than zero and one. -/
  | truth (n : Int)
  | absent
  deriving DecidableEq, Inhabited

/-- An integer of type `bits`. Of a truth value the low 64 bits count. -/
def intText (bits : Nat) (n : Int) : Except Unwritable String :=
  if bits = 1 then
    let low := n.bmod (twoPow 64)
    if low = 0 then .ok "false" else if low = 1 then .ok "true" else .error (.truth low)
  else match n with
    | .ofNat k => .ok (if readsBetterInHex k then "u0x" ++ hexText k else toString k)
    | .negSucc k => .ok ("-" ++ toString (k + 1))

/-- What stands in place of an operand and its type when it cannot be written. -/
def remark : Unwritable → Except Unwritable String
  | .truth n =>
    .ok s!"%!s(PANIC=String method: invalid integer value of boolean type; expected 0 or 1, got {n})"
  | .absent => .error .absent

/-! ## Types -/

def structText (packed : Bool) (fields : List String) : String :=
  let inner := if fields.isEmpty then "\x7b\x7d" else "\x7b " ++ ", ".intercalate fields ++ " \x7d"
  if packed then "<" ++ inner ++ ">" else inner

mutual

def Ty.text : Ty → String
  | .void => "void"
  | .int bits => "i" ++ toString bits
  | .float kind => kind.name
  | .pointer elem space =>
    elem.text ++ (if space = 0 then "*" else s!" addrspace({space})*")
  | .vector scalable n elem =>
    "<" ++ (if scalable then "vscale x " else "") ++ toString n ++ " x " ++ elem.text ++ ">"
  | .array n elem => "[" ++ toString n ++ " x " ++ elem.text ++ "]"
  | .struct packed fields => structText packed (Ty.texts fields)
  | .bodiless => "opaque"
  | .named name => "%" ++ nameText name
  | .func result params variadic =>
    result.text ++ " (" ++ ", ".intercalate (Ty.texts params ++ (if variadic then ["..."] else [])) ++ ")"
  | .label => "label"
  | .token => "token"
  | .metadata => "metadata"
  | .mmx => "x86_mmx"

def Ty.texts : List Ty → List String
  | [] => []
  | t :: ts => t.text :: Ty.texts ts

end

end Faultline.IR
