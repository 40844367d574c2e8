/-
# Settings.Yaml.Meaning — what a scalar stands for

A scalar without tag means a truth value, a number, a point in time or nothing where
it looks like one, and is a text otherwise. A tag of one of these kinds must agree
with what the scalar looks like, except that any scalar may be called a text and a
whole number may be called a fraction.
-/
import Faultline.Settings.Rounding
import Faultline.Text.Number

namespace Faultline.Settings.Yaml

inductive Meaning where
  | null
  | bool (b : Bool)
  | int (n : Int)
  /-- A fraction, with the word it is cut to. -/
  | fraction (word? : Option Int)
  | time
  | text
  deriving DecidableEq, Inhabited

/-! ## Numbers -/

def leastWord : Int := -twoPow 63

/-- The whole part of a rounded number as a word; too low a number is the least word, and so is the
first number past the greatest. -/
def wordOf? (negative : Bool) (r : Ratio) : Option Int :=
  let n := r.floor
  if negative then some (if n ≤ twoPow 63 then -(n : Int) else leastWord)
  else if r.num > twoPow 63 * r.den then none
  else some (if n = twoPow 63 then leastWord else n)

/-- The rounded value of `digits * 10 ^ exponent`, below the bound of floating point. -/
def decimal? (digits : Nat) (exponent : Int) : Option Ratio :=
  let size := (toString digits).length + exponent
  if digits = 0 || size < -400 then some ⟨0, 1⟩
  else if size > 400 then none
  else
    let r := Ratio.round53 (if exponent < 0 then ⟨digits, Nat.pow 10 exponent.natAbs⟩
      else ⟨digits * Nat.pow 10 exponent.natAbs, 1⟩)
    if r.num < twoPow 1024 * r.den then some r else none

def signOf : List Char → Bool × List Char
  | '-' :: cs => (true, cs)
  | '+' :: cs => (false, cs)
  | cs => (false, cs)

/-- An exponent; a very large one counts as a large one. -/
def exponent? : List Char → Option Int
  | [] => some 0
  | e :: cs =>
    let (negative, ds) := signOf cs
    if (e != 'e' && e != 'E') || ds.isEmpty || !ds.all Char.isDigit then none
    else
      let n : Nat := ds.foldl (fun n c => min 1000000 (10 * n + (c.toNat - 48))) 0
      some (if negative then -(n : Int) else n)

/-- Digits with a point among them or not, and an exponent. -/
def fraction? (cs : List Char) : Option Meaning := do
  let (negative, cs) := signOf cs
  let before := cs.takeWhile Char.isDigit
  let rest := cs.dropWhile Char.isDigit
  let (after, rest) := match rest with
    | '.' :: rest => (rest.takeWhile Char.isDigit, rest.dropWhile Char.isDigit)
    | rest => ([], rest)
  if before.isEmpty && after.isEmpty then none
  let e ← exponent? rest
  let digits := (before ++ after).foldl (fun n c => 10 * n + (c.toNat - 48)) 0
  let r ← decimal? digits (e - after.length)
  some (.fraction (wordOf? negative r))

def binary? : List Char → Option Meaning
  | '0' :: 'b' :: '-' :: ds =>
    (Text.digits 2 (twoPow 63 + 1) ds).toOption.map fun n => .int (-(n : Int))
  | '0' :: 'b' :: '+' :: ds => (Text.digits 2 (twoPow 63) ds).toOption.map fun n => .int n
  | _ => none

/-- A number that starts with a digit or a sign. Underscores do not count. -/
def number? (cs : List Char) : Option Meaning :=
  let ds := cs.filter (· != '_')
  match Text.integer (String.ofList ds), Text.natural ds with
  | .ok n, _ => some (.int n)
  | .error _, .ok n => some (.int n)
  | .error _, .error _ => fraction? ds <|> binary? ds

/-- A number that starts with a point. Underscores may stand between digits. -/
def pointed? (cs : List Char) : Option Meaning :=
  if Text.underscoresFit Char.isDigit false cs then fraction? (cs.filter (· != '_')) else none

/-! ## Points in time -/

def shortNumber? (cs : List Char) : Option (Nat × List Char) :=
  match cs with
  | a :: b :: cs =>
    if !a.isDigit then none
    else if b.isDigit then some (10 * (a.toNat - 48) + (b.toNat - 48), cs)
    else some (a.toNat - 48, b :: cs)
  | [a] => if a.isDigit then some (a.toNat - 48, []) else none
  | [] => none

def isOffset : List Char → Bool
  | ['Z'] => true
  | [s, a, b, ':', c, d] =>
    (s == '+' || s == '-') && [a, b, c, d].all Char.isDigit
      && 10 * (a.toNat - 48) + (b.toNat - 48) ≤ 24 && 10 * (c.toNat - 48) + (d.toNat - 48) ≤ 60
  | _ => false

def clock? (cs : List Char) : Option (List Char) := do
  let (h, cs) ← shortNumber? cs
  if cs.head? != some ':' then none
  let (m, cs) ← shortNumber? cs.tail
  if cs.head? != some ':' then none
  let (s, cs) ← shortNumber? cs.tail
  if h ≥ 24 || m ≥ 60 || s ≥ 60 then none
  match cs with
  | p :: d :: ds =>
    some (if (p == '.' || p == ',') && d.isDigit then ds.dropWhile Char.isDigit else cs)
  | cs => some cs

def daysIn (year month : Nat) : Nat :=
  if month = 2 then if year % 4 = 0 && (year % 100 ≠ 0 || year % 400 = 0) then 29 else 28
  else if [4, 6, 9, 11].contains month then 30 else 31

/-- A date, alone, or with a clock after a blank, or with a clock and a zone after a `T`. -/
def isTime (cs : List Char) : Bool :=
  let year := (cs.take 4).foldl (fun n c => 10 * n + (c.toNat - 48)) 0
  if (cs.takeWhile Char.isDigit).length ≠ 4 || (cs.drop 4).head? != some '-' then false
  else match shortNumber? (cs.drop 5) with
    | some (m, '-' :: cs) =>
      match shortNumber? cs with
      | some (d, cs) =>
        1 ≤ m && m ≤ 12 && 1 ≤ d && d ≤ daysIn year m &&
          match cs with
          | [] => true
          | ' ' :: cs => clock? (cs.dropWhile (· == ' ')) == some []
          | 'T' :: cs | 't' :: cs => (clock? cs).any isOffset
          | _ => false
      | none => false
    | _ => false

/-! ## Kinds -/

def truths : List (String × Bool) :=
  ["y", "Y", "yes", "Yes", "YES", "true", "True", "TRUE", "on", "On", "ON"].map (·, true)
    ++ ["n", "N", "no", "No", "NO", "false", "False", "FALSE", "off", "Off", "OFF"].map (·, false)

def word? (s : String) : Option Meaning :=
  if ["", "~", "null", "Null", "NULL"].contains s then some .null
  else if [".nan", ".NaN", ".NAN", ".inf", ".Inf", ".INF", "+.inf", "+.Inf", "+.INF"].contains s then
    some (.fraction none)
  else if ["-.inf", "-.Inf", "-.INF"].contains s then some (.fraction (some leastWord))
  else (truths.lookup s).map .bool

def appearance (mayBeTime : Bool) (s : String) : Meaning :=
  match word? s with
  | some m => m
  | none =>
    let cs := s.toList
    match cs.head? with
    | some '.' => (pointed? cs).getD .text
    | some c =>
      if !(c.isDigit || c == '+' || c == '-') then .text
      else if mayBeTime && isTime cs then .time
      else (number? cs).getD .text
    | none => .text

def common : String := "tag:yaml.org,2002:"

/-- The meaning of a scalar with a tag; empty for none. -/
def meaning? (tag s : String) : Option Meaning :=
  let agree (m : Meaning) (isKind : Meaning → Bool) : Option Meaning := if isKind m then some m else none
  if tag.isEmpty then some (appearance true s)
  else if tag == common ++ "bool" then agree (appearance false s) fun m => m matches .bool _
  else if tag == common ++ "int" then agree (appearance false s) fun m => m matches .int _
  else if tag == common ++ "null" then agree (appearance false s) fun m => m matches .null
  else if tag == common ++ "timestamp" then agree (appearance true s) fun m => m matches .time
  else if tag == common ++ "float" then
    match appearance false s with
    | .fraction w => some (.fraction w)
    | .int n =>
      if n < twoPow 63 then some (.fraction (wordOf? (n < 0) (Ratio.round53 ⟨n.natAbs, 1⟩))) else none
    | _ => none
  else some .text

end Faultline.Settings.Yaml
