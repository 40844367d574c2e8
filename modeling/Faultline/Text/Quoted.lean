/-
# Text.Quoted — texts between double quotes

`quote` writes a text so that messages can show it on one line: printable
characters stand for themselves, the quote and the backslash are escaped, the
seven usual control characters have a letter, and any other character is written
by its code in two, four or eight lower-case hexadecimal digits.
-/
import Faultline.Text.Printable

namespace Faultline.Text

def hexDigit (upper : Bool) (n : Nat) : Char :=
  if n < 10 then Char.ofNat (48 + n)
  else Char.ofNat ((if upper then 65 else 97) + (n - 10))

def hexDigits (upper : Bool) : Nat → Nat → List Char
  | 0, _ => []
  | count + 1, n => hexDigits upper count (n / 16) ++ [hexDigit upper (n % 16)]

def quoteChar (c : Char) : List Char :=
  if c == '"' || c == '\\' then ['\\', c]
  else if isPrintable c then [c]
  else match c.toNat with
    | 7 => ['\\', 'a']
    | 8 => ['\\', 'b']
    | 12 => ['\\', 'f']
    | 10 => ['\\', 'n']
    | 13 => ['\\', 'r']
    | 9 => ['\\', 't']
    | 11 => ['\\', 'v']
    | n =>
      if n < 0x20 || n == 0x7f then '\\' :: 'x' :: hexDigits false 2 n
      else if n < 0x10000 then '\\' :: 'u' :: hexDigits false 4 n
      else '\\' :: 'U' :: hexDigits false 8 n

def quote (s : String) : String :=
  String.ofList ('"' :: s.toList.flatMap quoteChar ++ ['"'])

end Faultline.Text
