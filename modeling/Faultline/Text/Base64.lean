/-
# Text.Base64 — bytes as text

Four characters stand for three bytes. The last four may end in one or two signs of
equality, for two bytes or one. Line ends do not count.
-/

namespace Faultline.Text.Base64

def sextet? (c : Char) : Option Nat :=
  if c.isUpper then some (c.toNat - 65)
  else if c.isLower then some (c.toNat - 97 + 26)
  else if c.isDigit then some (c.toNat - 48 + 52)
  else if c == '+' then some 62
  else if c == '/' then some 63
  else none

def bytesOf (n : Nat) : List UInt8 :=
  [(n / 65536).toUInt8, (n / 256).toUInt8, n.toUInt8]

def groups : List Char → Option (List UInt8)
  | [] => some []
  | [a, b, '=', '='] => do
    let n := 64 * (← sextet? a) + (← sextet? b)
    some ((bytesOf (n * 4096)).take 1)
  | [a, b, c, '='] => do
    let n := 4096 * (← sextet? a) + 64 * (← sextet? b) + (← sextet? c)
    some ((bytesOf (n * 64)).take 2)
  | a :: b :: c :: d :: cs => do
    let n := 262144 * (← sextet? a) + 4096 * (← sextet? b) + 64 * (← sextet? c) + (← sextet? d)
    some (bytesOf n ++ (← groups cs))
  | _ => none

def decode (s : String) : Option (List UInt8) :=
  groups (s.toList.filter fun c => c != '\n' && c != '\r')

end Faultline.Text.Base64
