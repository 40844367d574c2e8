/-
# Text.Bytes — texts that need not consist of characters

Names and quoted texts of a module are bytes. Where they are shown they are read as
characters: `decode` cuts them into the characters that are encoded and the bytes
that belong to none, each on its own. `shown` puts the replacement character in
place of such a byte, `quoteBytes` its code.
-/
import Faultline.Power
import Faultline.Text.Quoted

namespace Faultline.Text

abbrev Bytes := List UInt8

def utf8 (s : String) : Bytes :=
  s.toUTF8.toList

def isContinuation (b : UInt8) : Bool :=
  b.toNat / 64 == 2

/-- How many continuation bytes follow a leading byte. -/
def continuations (n : Nat) : Nat :=
  if n < 0xC2 then 0 else if n < 0xE0 then 1 else if n < 0xF0 then 2 else if n < 0xF5 then 3 else 0

/-- The least code that takes this many continuation bytes. -/
def leastCode : Nat → Nat
  | 0 => 0
  | 1 => 0x80
  | 2 => 0x800
  | _ => 0x10000

/-- The character a byte string begins with, if it begins with one, and what follows it. -/
def char? : Bytes → Option (Char × Bytes)
  | [] => none
  | b :: bs =>
    let n := b.toNat
    if n < 0x80 then some (Char.ofNat n, bs)
    else
      let more := continuations n
      let tail := bs.take more
      let code := tail.foldl (fun code b => 64 * code + b.toNat % 64) (n % twoPow (6 - more))
      if more = 0 || tail.length != more || !tail.all isContinuation then none
      else if code < leastCode more || 0x10FFFF < code || (0xD800 ≤ code && code < 0xE000) then none
      else some (Char.ofNat code, bs.drop more)

def replacement : Char := Char.ofNat 0xFFFD

/-- The character at the front, or the replacement for the one byte there. -/
def front (b : UInt8) (bs : Bytes) : Char × Bytes :=
  (char? (b :: bs)).getD (replacement, bs)

def decodeFrom : Nat → Bytes → List (Except UInt8 Char)
  | 0, _ => []
  | _, [] => []
  | fuel + 1, b :: bs =>
    match char? (b :: bs) with
    | some (c, rest) => .ok c :: decodeFrom fuel rest
    | none => .error b :: decodeFrom fuel bs

def decode (bs : Bytes) : List (Except UInt8 Char) :=
  decodeFrom bs.length bs

def shown (bs : Bytes) : String :=
  String.ofList ((decode bs).map fun
    | .ok c => c
    | .error _ => replacement)

def quoteBytes (bs : Bytes) : String :=
  String.ofList ('"' :: (decode bs).flatMap (fun
    | .ok c => quoteChar c
    | .error b => '\\' :: 'x' :: hexDigits false 2 b.toNat) ++ ['"'])

def splitBytes (separator : UInt8) : Bytes → List Bytes
  | [] => [[]]
  | b :: bs =>
    if b = separator then [] :: splitBytes separator bs
    else match splitBytes separator bs with
      | [] => [[b]]
      | first :: rest => (b :: first) :: rest

def codes (bs : Bytes) : List Char :=
  bs.map fun b => Char.ofNat b.toNat

end Faultline.Text
